import Coap.Proofs.DeliveryOutcome
import Coap.Proofs.DownloadSoundness
import Coap.Proofs.UploadReach
import Coap.Transfer.Complete

/-! What a whole transfer returns, against a server that may answer anything: which of the answers
becomes the response, and from which messages its payload is taken. -/
namespace Coap

/-- A response with a code that is no success. -/
def Outcome.Rejects (answer : Outcome) : Prop :=
  ∃ m status, answer = .ok m ∧ m.code = .response status ∧ status.isSuccess = false

/-! Answers that end an activity in every state -/

/-- An answer that finishes an activity from every state is the last one that the activity uses. -/
theorem Stride.run_ends {σ ρ : Type} {resume : σ → Outcome → Stride σ ρ} {answer : Outcome}
    {result : ρ} (hends : ∀ state, (resume state answer).turn = .finish result) (s : Stride σ ρ)
    (answers : List Outcome) (k : Nat) (hk : k < (s.run resume answers).requests.length)
    (ha : answers[k]? = some answer) :
    (s.run resume answers).requests.length = k + 1 ∧
      (s.run resume answers).result = some result := by
  induction answers generalizing s k with
  | nil => cases ha
  | cons a rest ih =>
    cases hturn : s.turn with
    | finish other =>
      rw [run_of_finish hturn] at hk
      exact absurd hk (Nat.not_lt_zero k)
    | ask request state =>
      rw [run_of_ask_cons hturn] at hk ⊢
      cases k with
      | zero =>
        cases ha
        rw [run_of_finish (hends state)]
        exact ⟨rfl, rfl⟩
      | succ k =>
        have hlater : k < ((resume state a).run resume rest).requests.length := by
          simpa using hk
        obtain ⟨hlength, hresult⟩ := ih (resume state a) k hlater ha
        exact ⟨by rw [List.length_cons, hlength], hresult⟩

/-- Strides that differ in their reports only run in the same way. -/
theorem Stride.run_of_turn {σ ρ : Type} {resume : σ → Outcome → Stride σ ρ} {s s' : Stride σ ρ}
    (h : s.turn = s'.turn) (answers : List Outcome) :
    (s.run resume answers).requests = (s'.run resume answers).requests ∧
      (s.run resume answers).result = (s'.run resume answers).result := by
  cases hturn : s'.turn with
  | finish result =>
    rw [run_of_finish hturn, run_of_finish (h.trans hturn)]
    exact ⟨rfl, rfl⟩
  | ask request state =>
    cases answers with
    | nil =>
      rw [run_of_ask_nil hturn, run_of_ask_nil (h.trans hturn)]
      exact ⟨rfl, rfl⟩
    | cons answer rest =>
      rw [run_of_ask_cons hturn, run_of_ask_cons (h.trans hturn)]
      exact ⟨rfl, rfl⟩

theorem Response.message_of_ofMessage {m : Message} {r : Response} (h : Response.ofMessage m = .ok r) :
    r.message = m := by
  unfold Response.ofMessage at h
  split at h
  · cases h
    exact message_foldl_note m.options _
  · cases h

theorem Message.toResponse_eq_ok_iff {m : Message} {r : Response} :
    m.toResponse = .ok r ↔ Response.ofMessage m = .ok r := by
  unfold Message.toResponse
  cases Response.ofMessage m with
  | ok response => simp
  | error e => simp

theorem Outcome.rejects_of_ofMessage {m : Message} {r : Response}
    (h : Response.ofMessage m = .ok r) (hs : m.code.isSuccess = false) :
    Outcome.Rejects (.ok m) := by
  obtain ⟨status, hstatus⟩ := (Delivery.ofMessage_eq_ok_iff m).mp ⟨r, h⟩
  rw [hstatus] at hs
  exact ⟨m, status, rfl, hstatus, hs⟩

/-- While another request follows, the payload has not been sent to its end. -/
theorem Upload.course_unfinished {u : Upload} {answers : List Outcome} {requests : List Message}
    {result : Option Outcome} (hc : Course u answers requests result) (ha : u.Aligned) (j : Nat)
    (hj : j + 1 < requests.length) :
    u.offset + (Message.joined (requests.take (j + 1))).size < u.payload.size := by
  induction hc generalizing j with
  | unreachable | unanswered | stopped | completed => simp at hj
  | @continued u q m rest requests result hr hm hs _ ih =>
    have hstop := u.more_iff.mp hm
    have hle := offset_le_stop ha
    have hq : q.payload.size = u.stop - u.offset := by rw [request_payload hr, extract_size]
    rw [List.take_succ_cons, Message.joined, ByteArray.size_append]
    cases j with
    | zero =>
      rw [List.take_zero, Message.joined, ByteArray.size_empty]
      omega
    | succ j =>
      have hnext : u.stop + (Message.joined (requests.take (j + 1))).size < u.payload.size :=
        ih (next_aligned ha hm m) j (by simpa using hj)
      omega

/-- While another request follows, an upload has not sent the whole payload. -/
theorem Upload.unfinished_of_start (template : Message) (payload : ByteArray) (size : BlockSize)
    (answers : List Outcome) (j : Nat) :
    let t := Stride.run resume { turn := start template payload size } answers
    j + 1 < t.requests.length → Message.joined (t.requests.take (j + 1)) ≠ payload := by
  intro t hj hjoined
  rcases course_of_start template payload size answers with ⟨-, ht⟩ | ⟨-, ha, hc⟩
  · change t = _ at ht
    rw [ht] at hj
    exact absurd hj (Nat.not_lt_zero _)
  · have hless := course_unfinished hc ha j hj
    change 0 + (Message.joined (t.requests.take (j + 1))).size < payload.size at hless
    rw [hjoined] at hless
    omega

/-- A download that is rejected has used the rejecting answer. -/
theorem Download.Ending.mem_of_rejected {got : List Message} {used : List Outcome} {m : Message}
    (h : Ending got used (.ok (.rejected m))) : .ok m ∈ used ∧ m.code.isSuccess = false := by
  cases h with
  | rejected _ hs => exact ⟨List.mem_append_right _ (List.mem_singleton_self _), hs⟩

namespace Transfer

/-! The parts of a transfer -/

/-- What a transfer returns at the end of the download that `first` began. -/
def concluded (first : Message) : Except ClientError Assembly → Except ClientError Response
  | .error e => .error e
  | .ok (.rejected answer) => answer.toResponse
  | .ok (.reassembled payload) => first.toResponse.map fun r => r.withPayload payload

theorem ofDownload_eq_map (t : Transfer) (first : Message)
    (s : Stride Download (Except ClientError Assembly)) :
    t.ofDownload first s =
      s.map (fun d => { t with stage := .downloading first d }) (concluded first) := by
  unfold ofDownload Stride.map Turn.map
  cases s.turn with
  | ask request d => rfl
  | finish result =>
    cases result with
    | error e => rfl
    | ok assembly => cases assembly <;> rfl

theorem resume_eq_map (t : Transfer) (first : Message) (d : Download) (answer : Outcome) :
    resume { t with stage := .downloading first d } answer =
      (d.resume answer).map (fun d => { t with stage := .downloading first d }) (concluded first) :=
  ofDownload_eq_map t first (d.resume answer)

theorem ofUpload_of_ask {s : Stride Upload Outcome} {request : Message} {u : Upload}
    (h : s.turn = .ask request u) (t : Transfer) :
    (t.ofUpload s).turn = .ask request { t with stage := .uploading u } := by
  simp only [ofUpload, h]

theorem ofUpload_of_error {s : Stride Upload Outcome} {e : ClientError}
    (h : s.turn = .finish (.error e)) (t : Transfer) :
    (t.ofUpload s).turn = .finish (.error e) := by
  simp only [ofUpload, h]

theorem ofUpload_of_answer {s : Stride Upload Outcome} {m : Message}
    (h : s.turn = .finish (.ok m)) (t : Transfer) :
    (t.ofUpload s).turn = (t.received m).turn := by
  simp only [ofUpload, h]

theorem received_of_failure {m : Message} (hs : m.code.isSuccess = false) (t : Transfer) :
    (t.received m).turn = .finish m.toResponse := by
  simp [received, hs]

/-- Whatever a transfer is at, an answer that is no success is what it returns. -/
theorem resume_of_failure {m : Message} (hs : m.code.isSuccess = false) (t : Transfer) :
    (t.resume (.ok m)).turn = .finish m.toResponse := by
  obtain ⟨settings, followUp, stage⟩ := t
  cases stage with
  | whole => exact received_of_failure hs _
  | uploading u =>
    have hturn : (u.resume (.ok m)).turn = .finish (.ok m) := by simp [Upload.resume, hs]
    exact (ofUpload_of_answer hturn _).trans (received_of_failure hs _)
  | downloading first d =>
    rw [resume_eq_map { settings, followUp, stage := .whole } first d]
    exact Stride.map_of_finish (Download.resume_of_rejection hs)

/-- While a transfer downloads, it sends what the download sends and ends with it. -/
theorem run_ofDownload (t : Transfer) (first : Message)
    (s : Stride Download (Except ClientError Assembly)) (answers : List Outcome) :
    (t.ofDownload first s).run resume answers =
      { requests := (s.run Download.resume answers).requests
        reports := (s.run Download.resume answers).reports
        result := (s.run Download.resume answers).result.map (concluded first) } := by
  rw [ofDownload_eq_map]
  exact Stride.run_map (resume_eq_map t first) s answers

/-- The request is through: it has gone out in the messages `sent`, and the latest of them has been
answered by `answer`. -/
structure Through (payload : ByteArray) (answers : List Outcome) (sent : List Message)
    (answer : Message) : Prop where
  answered : ∃ k, sent.length = k + 1 ∧ answers[k]? = some (.ok answer)
  complete : answer.code.isSuccess = true → Message.joined sent = payload
  first : ∀ j, j + 1 < sent.length → Message.joined (sent.take (j + 1)) ≠ payload

/-- A transfer that returns a response has uploaded its request, and the answer to the last block is
what the rest of it goes on from. -/
theorem uploaded_of_result (t : Transfer) (s : Stride Upload Outcome) (answers : List Outcome)
    {r : Response} (hr : ((t.ofUpload s).run resume answers).result = some (.ok r)) :
    ∃ (t' : Transfer) (m : Message), t'.settings = t.settings ∧
      (s.run Upload.resume answers).result = some (.ok m) ∧
      ((t.ofUpload s).run resume answers).requests = (s.run Upload.resume answers).requests ++
        ((t'.received m).run resume
          (answers.drop (s.run Upload.resume answers).requests.length)).requests ∧
      ((t'.received m).run resume
        (answers.drop (s.run Upload.resume answers).requests.length)).result = some (.ok r) := by
  -- Once the upload is over the transfer goes on from its answer; an error would have ended it.
  have hfinished {t : Transfer} {s : Stride Upload Outcome} {answers : List Outcome}
      {result : Outcome} (hs : s.turn = .finish result)
      (hr : ((t.ofUpload s).run resume answers).result = some (.ok r)) :
      ∃ m, result = .ok m ∧ ((t.ofUpload s).run resume answers).requests =
          ((t.received m).run resume answers).requests ∧
        ((t.received m).run resume answers).result = some (.ok r) := by
    cases result with
    | error e =>
      rw [Stride.run_of_finish (ofUpload_of_error hs t)] at hr
      cases hr
    | ok m =>
      obtain ⟨hrequests, hresult⟩ := Stride.run_of_turn (ofUpload_of_answer hs t) answers
      exact ⟨m, rfl, hrequests, hresult.symm.trans hr⟩
  induction answers generalizing t s with
  | nil =>
    cases hs : s.turn with
    | ask request u =>
      rw [Stride.run_of_ask_nil (ofUpload_of_ask hs t)] at hr
      cases hr
    | finish result =>
      obtain ⟨m, rfl, hrequests, hresult⟩ := hfinished hs hr
      rw [Stride.run_of_finish hs]
      exact ⟨t, m, rfl, rfl, hrequests, hresult⟩
  | cons answer rest ih =>
    cases hs : s.turn with
    | ask request u =>
      rw [Stride.run_of_ask_cons (ofUpload_of_ask hs t)] at hr ⊢
      rw [Stride.run_of_ask_cons hs]
      obtain ⟨t', m, hsettings, hm, hrequests, hresult⟩ :=
        ih { t with stage := .uploading u } (u.resume answer) hr
      exact ⟨t', m, hsettings, hm, congrArg (request :: ·) hrequests, hresult⟩
    | finish result =>
      obtain ⟨m, rfl, hrequests, hresult⟩ := hfinished hs hr
      rw [Stride.run_of_finish hs]
      exact ⟨t, m, rfl, rfl, hrequests, hresult⟩

/-- An upload that has been answered to its end has sent the whole payload, and not before. -/
theorem through_of_upload {template : Message} {payload : ByteArray} {size : BlockSize}
    {answers : List Outcome} {m : Message}
    (hm : (Stride.run Upload.resume { turn := Upload.start template payload size } answers).result =
      some (.ok m)) :
    Through payload answers
      (Stride.run Upload.resume { turn := Upload.start template payload size } answers).requests m := by
  let sent := (Stride.run Upload.resume { turn := Upload.start template payload size } answers).requests
  -- An upload that has been answered stopped at a failure, or it has sent everything.
  have hanswered : ∃ k, sent.length = k + 1 ∧ answers[k]? = some (.ok m) ∧
      (Outcome.Stops (.ok m) ∨ Message.joined sent = payload) := by
    rcases Upload.course_of_start template payload size answers with ⟨-, ht⟩ | ⟨-, ha, hc⟩
    · rw [ht] at hm
      cases hm
    · rcases Upload.course_ending hc ha _ hm with ⟨k, hlength, hk, hend⟩ | ⟨_, _, -, -, -, hwhat⟩
      · refine ⟨k, hlength, hk, hend.imp_right fun hjoined => ?_⟩
        have hnone : payload.extract 0 0 = ByteArray.empty := ByteArray.extract_same
        rwa [hnone, ByteArray.empty_append] at hjoined
      · cases hwhat
  obtain ⟨k, hlength, hk, hend⟩ := hanswered
  refine ⟨⟨k, hlength, hk⟩, ?_, Upload.unfinished_of_start template payload size answers⟩
  intro hs
  rcases hend with hstops | hjoined
  · have hfail := hstops m rfl
    rw [hs] at hfail
    cases hfail
  · exact hjoined

/-- A transfer that returns a response has got its request through first. -/
theorem through_of_result (settings : TransferSettings) (request followUp : Message)
    (answers : List Outcome) {r : Response}
    (hr : ((start settings request followUp).run resume answers).result = some (.ok r)) :
    ∃ (t : Transfer) (sent : List Message) (m : Message), t.settings = settings ∧
      Through request.payload answers sent m ∧
      ((start settings request followUp).run resume answers).requests =
        sent ++ ((t.received m).run resume (answers.drop sent.length)).requests ∧
      ((t.received m).run resume (answers.drop sent.length)).result = some (.ok r) := by
  let t : Transfer := { settings, followUp, stage := .whole }
  by_cases hlarge : (settings.blockTransfer &&
      settings.blockSize.bytes < request.payload.size) = true
  · let template : Message := { request with payload := ByteArray.empty }
    have hstart : start settings request followUp =
        t.ofUpload { turn := Upload.start template request.payload settings.blockSize } :=
      if_pos hlarge
    rw [hstart] at hr ⊢
    obtain ⟨t', m, hsettings, hm, hrequests, hresult⟩ := uploaded_of_result t _ answers hr
    exact ⟨t', _, m, hsettings, through_of_upload hm, hrequests, hresult⟩
  · have hturn : (start settings request followUp).turn = .ask request t :=
      congrArg Stride.turn (if_neg hlarge)
    cases answers with
    | nil =>
      rw [Stride.run_of_ask_nil hturn] at hr
      cases hr
    | cons answer rest =>
      rw [Stride.run_of_ask_cons hturn] at hr ⊢
      cases answer with
      | error e =>
        have hfails : (t.resume (.error e)).turn = .finish (.error e) := rfl
        rw [Stride.run_of_finish hfails] at hr
        cases hr
      | ok m =>
        refine ⟨t, [request], m, rfl, ⟨⟨0, rfl, rfl⟩, fun _ => ?_, ?_⟩, rfl, hr⟩
        · rw [Message.joined, Message.joined, ByteArray.append_empty]
        · intro j hj
          simp at hj

/-- What a transfer returns of the answer `first` to its request, which has used the answers `used`
after it: the response in `first`, with the payload of all blocks if there are blocks to fetch. -/
structure Returns (blockTransfer : Bool) (first : Message) (used : List Outcome) (payload : ByteArray)
    (r : Response) : Prop where
  response : Response.ofMessage { first with payload } = .ok r
  fetched : blockTransfer = true → first.block2Value.isSome = true →
    Download.Ending [first] used (.ok (.reassembled payload))
  own : blockTransfer = false ∨ first.block2Value.isSome = false → used = [] ∧ payload = first.payload

/-- Without a rejection among the answers used, a transfer returns what `first` began. -/
theorem returns_of_received {t : Transfer} {first : Message} {answers : List Outcome} {r : Response}
    (hs : first.code.isSuccess = true)
    (hr : ((t.received first).run resume answers).result = some (.ok r))
    (hnone : ∀ answer ∈ answers.take ((t.received first).run resume answers).requests.length,
      ¬ answer.Rejects) :
    ∃ payload, Returns t.settings.blockTransfer first
      (answers.take ((t.received first).run resume answers).requests.length) payload r := by
  by_cases hfetch : (t.settings.blockTransfer && first.block2Value.isSome) = true
  · obtain ⟨hon, hblocks⟩ := Bool.and_eq_true_iff.mp hfetch
    have hreceived : t.received first = t.ofDownload first (Download.start t.followUp first) := by
      simp [received, hon, hs, hblocks]
    rw [hreceived, run_ofDownload] at hr hnone
    rw [hreceived, run_ofDownload]
    obtain ⟨assembly, hdownload, hconcluded⟩ := Option.map_eq_some_iff.mp hr
    obtain ⟨-, hend⟩ := Download.ending_of_start t.followUp first answers _ hdownload
    cases assembly with
    | error e => cases hconcluded
    | ok assembly =>
      cases assembly with
      | rejected answer =>
        -- The answer that rejects the download would be a rejection among those used.
        have hmessage : Response.ofMessage answer = .ok r := Message.toResponse_eq_ok_iff.mp hconcluded
        obtain ⟨hused, hfailure⟩ := hend.mem_of_rejected
        exact absurd (Outcome.rejects_of_ofMessage hmessage hfailure) (hnone _ hused)
      | reassembled payload =>
        refine ⟨payload, ?_, fun _ _ => hend, ?_⟩
        · change first.toResponse.map (fun r => r.withPayload payload) = .ok r at hconcluded
          rw [Delivery.ofMessage_with]
          cases hown : first.toResponse with
          | error e =>
            rw [hown] at hconcluded
            cases hconcluded
          | ok own =>
            rw [hown] at hconcluded
            rw [Message.toResponse_eq_ok_iff.mp hown]
            cases hconcluded
            rfl
        · rintro (hoff | hno)
          · rw [hon] at hoff
            cases hoff
          · rw [hblocks] at hno
            cases hno
  · have hturn : (t.received first).turn = .finish first.toResponse := by
      simp [received, hs, hfetch]
    rw [Stride.run_of_finish hturn] at hr ⊢
    have hresponse : first.toResponse = .ok r := Option.some.inj hr
    refine ⟨first.payload, Message.toResponse_eq_ok_iff.mp hresponse, ?_, fun _ => ⟨rfl, rfl⟩⟩
    intro hon hblocks
    rw [hon, hblocks] at hfetch
    exact absurd rfl hfetch

/-- What a transfer returns, whatever the answers to its exchanges. A response that is no success
ends it and is returned as it is, whichever request it answers. Otherwise a response that is returned
is the first answer after the request went out with its whole payload; it has the payload of all
blocks if that answer carries a block and blocks are transferred, and its own payload if not. Without
block transfer the request itself is all that is sent. -/
theorem error_responses_surface (settings : TransferSettings) (request followUp : Message)
    (answers : List Outcome) :
    let t := (start settings request followUp).run resume answers
    (∀ k m status, k < t.requests.length → answers[k]? = some (.ok m) → m.code = .response status →
      status.isSuccess = false →
        t.requests.length = k + 1 ∧
          ∃ r, t.result = some (.ok r) ∧ r.message = m ∧ Response.ofMessage m = .ok r) ∧
    (∀ r, t.result = some (.ok r) → (∀ answer ∈ answers.take t.requests.length, ¬ answer.Rejects) →
      ∃ k m payload, k < t.requests.length ∧ answers[k]? = some (.ok m) ∧
        Message.joined (t.requests.take (k + 1)) = request.payload ∧
        (∀ j < k, Message.joined (t.requests.take (j + 1)) ≠ request.payload) ∧
        r.message = { m with payload } ∧
        Returns settings.blockTransfer m ((answers.take t.requests.length).drop (k + 1)) payload r) ∧
    (settings.blockTransfer = false →
      t.requests = [request] ∧
        t.result = answers.head?.map fun answer => answer >>= Message.toResponse) := by
  intro t
  refine ⟨?_, ?_, ?_⟩
  -- A rejection ends the transfer in every state, so it is the last answer used.
  · intro k m status hk ha hcode hfailure
    have hs : m.code.isSuccess = false := by rw [hcode]; exact hfailure
    obtain ⟨r, hr⟩ := (Delivery.ofMessage_eq_ok_iff m).mpr ⟨status, hcode⟩
    have hresponse : m.toResponse = .ok r := Message.toResponse_eq_ok_iff.mpr hr
    obtain ⟨hlength, hresult⟩ := Stride.run_ends (resume_of_failure hs) _ answers k hk ha
    rw [hresponse] at hresult
    exact ⟨hlength, r, hresult, Response.message_of_ofMessage hr, hr⟩
  -- Without one, the answer to the last message of the request is where the response begins.
  · intro r hr hnone
    obtain ⟨t', sent, m, rfl, hthrough, hrequests, hresult⟩ :=
      through_of_result settings request followUp answers hr
    obtain ⟨k, hlength, hk⟩ := hthrough.answered
    let later := ((t'.received m).run resume (answers.drop sent.length)).requests
    have htotal : t.requests = sent ++ later := hrequests
    have hused : (answers.take t.requests.length).drop (k + 1) =
        (answers.drop sent.length).take later.length := by
      rw [htotal, List.length_append, List.drop_take, hlength, Nat.add_sub_cancel_left]
    have hmem : .ok m ∈ answers.take t.requests.length := by
      apply List.mem_of_getElem? (i := k)
      rw [List.getElem?_take_of_lt (by rw [htotal, List.length_append]; omega)]
      exact hk
    have hs : m.code.isSuccess = true := by
      cases hs : m.code.isSuccess with
      | true => rfl
      | false =>
        -- The answer itself would be returned, as the rejection that it is.
        rw [Stride.run_of_finish (received_of_failure hs t')] at hresult
        have hresponse : m.toResponse = .ok r := Option.some.inj hresult
        exact absurd (Outcome.rejects_of_ofMessage (Message.toResponse_eq_ok_iff.mp hresponse) hs)
          (hnone _ hmem)
    obtain ⟨payload, hreturns⟩ := returns_of_received hs hresult (by
      intro answer hanswer
      apply hnone answer
      rw [← hused] at hanswer
      exact List.mem_of_mem_drop hanswer)
    rw [← hused] at hreturns
    have htake (j : Nat) (hj : j ≤ k) : t.requests.take (j + 1) = sent.take (j + 1) := by
      rw [htotal, List.take_append_of_le_length (by omega)]
    refine ⟨k, m, payload, ?_, hk, ?_, ?_, Response.message_of_ofMessage hreturns.response, hreturns⟩
    · rw [htotal, List.length_append]
      omega
    · rw [htake k (Nat.le_refl k), ← hlength, List.take_length]
      exact hthrough.complete hs
    · intro j hj
      rw [htake j (Nat.le_of_lt hj)]
      exact hthrough.first j (by omega)
  · intro hoff
    have hturn : (start settings request followUp).turn =
        .ask request { settings, followUp, stage := .whole } := by
      simp [start, hoff]
    have hfinish (answer : Outcome) :
        (resume { settings, followUp, stage := .whole } answer).turn =
          .finish (answer >>= Message.toResponse) := by
      cases answer with
      | error e => rfl
      | ok m =>
        change (received _ m).turn = .finish m.toResponse
        simp [received, hoff]
    cases answers with
    | nil =>
      have ht : t = _ := Stride.run_of_ask_nil hturn
      rw [ht]
      exact ⟨rfl, rfl⟩
    | cons answer rest =>
      have ht : t = _ := Stride.run_of_ask_cons hturn answer rest
      rw [ht, Stride.run_of_finish (hfinish answer)]
      exact ⟨rfl, rfl⟩

end Transfer

end Coap
