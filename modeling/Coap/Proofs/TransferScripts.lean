import Coap.Proofs.MessageOrigins
import Coap.Proofs.TransferOutcome

/-! The messages that a transfer sends, in their order: first the request, whole or block by block, and
then the requests for further blocks of the response. -/
namespace Coap

/-- The message asks for a block of a response, in the terms of the template. -/
def Message.Fetches (template r : Message) : Prop := ∃ value, r = template.setOption (.block2 value)

/-- The messages by which a request goes out: itself, or one for each block of its payload. -/
def Transfer.opening (settings : TransferSettings) (request : Message) (answers : List Outcome) :
    List Message :=
  if settings.blockTransfer && settings.blockSize.bytes < request.payload.size then
    (Stride.run Upload.resume
      { turn := Upload.start { request with payload := ByteArray.empty } request.payload
          settings.blockSize } answers).requests
  else [request]

/-- What every turn of an activity asks for with the property, all requests of its runs have. -/
theorem Stride.mem_requests {σ ρ : Type} {resume : σ → Outcome → Stride σ ρ} {P : Message → Prop}
    {state : σ → Prop} (hnext : ∀ x, state x → ∀ answer, (resume x answer).turn.Carries P state)
    {s : Stride σ ρ} (h : s.turn.Carries P state) (answers : List Outcome) :
    ∀ r ∈ (s.run resume answers).requests, P r := by
  -- Along the answers: each turn asks for one message, and leaves a state as before.
  induction answers generalizing s with
  | nil =>
    intro r hr
    cases hturn : s.turn with
    | ask request x =>
      rw [run_of_ask_nil hturn, List.mem_singleton] at hr
      rw [hturn] at h
      rw [hr]
      exact h.1
    | finish result =>
      rw [run_of_finish hturn] at hr
      cases hr
  | cons answer rest ih =>
    intro r hr
    cases hturn : s.turn with
    | ask request x =>
      rw [run_of_ask_cons hturn] at hr
      rw [hturn] at h
      rcases List.mem_cons.mp hr with rfl | hr
      · exact h.1
      · exact ih (hnext x h.2 answer) r hr
    | finish result =>
      rw [run_of_finish hturn] at hr
      cases hr

/-- A download asks for every block in the terms of its template. -/
theorem Download.fetches_of_request {template : Message} {d : Download} {r : Message}
    (ht : d.template = template) (hr : d.request = .ok r) : template.Fetches r := by
  obtain ⟨value, -, rfl⟩ := request_eq_ok hr
  exact ⟨value, by rw [ht]⟩

theorem Download.requests_fetch (template first : Message) (answers : List Outcome) :
    ∀ r ∈ ((start template first).run resume answers).requests, template.Fetches r :=
  Stride.mem_requests
    (fun _ hd answer => resume_carries (Q := (· = template)) fetches_of_request hd answer)
    (start_carries (Q := (· = template)) fetches_of_request rfl first) answers

namespace Transfer

variable {settings : TransferSettings} {request : Message} {answers : List Outcome}

/-- What a request hands on to its parts, all messages have by which it goes out. -/
theorem opening_carries {P : Message → Prop} (hP : Inherited P) (h : P request) :
    ∀ r ∈ opening settings request answers, P r := by
  intro r hr
  unfold opening at hr
  split at hr
  · exact Stride.mem_requests (fun _ hu answer => Upload.resume_carries hP hu answer)
      (Upload.start_carries hP h settings.blockSize) answers r hr
  · rw [List.mem_singleton.mp hr]
    exact h

/-- A request without payload goes out whole. -/
theorem opening_of_no_payload (h : request.payload.size = 0) :
    opening settings request answers = [request] := by
  simp [opening, h]

theorem received_fetches (t : Transfer) (answer : Message) (answers : List Outcome) :
    ∀ r ∈ ((t.received answer).run resume answers).requests, t.followUp.Fetches r := by
  unfold received
  split
  · rw [run_ofDownload]
    exact Download.requests_fetch t.followUp answer answers
  · rw [Stride.run_of_finish rfl]
    intro r hr
    cases hr

/-- A transfer sends what its upload sends, and then asks for further blocks. -/
theorem requests_of_upload (t : Transfer) (s : Stride Upload Outcome) (answers : List Outcome) :
    ∃ further, ((t.ofUpload s).run resume answers).requests =
        (s.run Upload.resume answers).requests ++ further ∧
      ∀ r ∈ further, t.followUp.Fetches r := by
  -- Once the upload is over, only blocks of the response are asked for.
  have hover {t : Transfer} {s : Stride Upload Outcome} {outcome : Outcome} (answers : List Outcome)
      (hs : s.turn = .finish outcome) :
      ∀ r ∈ ((t.ofUpload s).run resume answers).requests, t.followUp.Fetches r := by
    cases outcome with
    | error e =>
      rw [Stride.run_of_finish (ofUpload_of_error hs t)]
      exact List.forall_mem_nil _
    | ok m =>
      rw [(Stride.run_of_turn (ofUpload_of_answer hs t) answers).1]
      exact received_fetches t m answers
  -- Until then each answer goes to the upload.
  induction answers generalizing t s with
  | nil =>
    cases hs : s.turn with
    | ask request u =>
      rw [Stride.run_of_ask_nil (ofUpload_of_ask hs t), Stride.run_of_ask_nil hs]
      exact ⟨[], rfl, List.forall_mem_nil _⟩
    | finish outcome =>
      rw [Stride.run_of_finish hs]
      exact ⟨_, rfl, hover [] hs⟩
  | cons answer rest ih =>
    cases hs : s.turn with
    | ask request u =>
      rw [Stride.run_of_ask_cons (ofUpload_of_ask hs t), Stride.run_of_ask_cons hs]
      obtain ⟨further, hrequests, hfetches⟩ := ih { t with stage := .uploading u } (u.resume answer)
      exact ⟨further, congrArg (request :: ·) hrequests, hfetches⟩
    | finish outcome =>
      rw [Stride.run_of_finish hs]
      exact ⟨_, rfl, hover (answer :: rest) hs⟩

/-- Under whatever answers, the messages of a transfer are those by which the request goes out, and
after them those that ask for further blocks of the response. -/
theorem requests_of_start (settings : TransferSettings) (request followUp : Message)
    (answers : List Outcome) :
    ∃ further, ((start settings request followUp).run resume answers).requests =
        opening settings request answers ++ further ∧
      ∀ r ∈ further, followUp.Fetches r := by
  let t : Transfer := { settings, followUp, stage := .whole }
  unfold opening
  -- With a payload of more than one block the request is an upload, otherwise one message.
  by_cases hlarge : (settings.blockTransfer &&
      settings.blockSize.bytes < request.payload.size) = true
  · have hstart : start settings request followUp = t.ofUpload
        { turn := Upload.start { request with payload := ByteArray.empty } request.payload
            settings.blockSize } := if_pos hlarge
    rw [if_pos hlarge, hstart]
    exact requests_of_upload t _ answers
  · have hturn : (start settings request followUp).turn = .ask request t :=
      congrArg Stride.turn (if_neg hlarge)
    rw [if_neg hlarge]
    cases answers with
    | nil =>
      rw [Stride.run_of_ask_nil hturn]
      exact ⟨[], rfl, List.forall_mem_nil _⟩
    | cons answer rest =>
      rw [Stride.run_of_ask_cons hturn]
      refine ⟨_, rfl, ?_⟩
      cases answer with
      | error e =>
        have hfails : (t.resume (.error e)).turn = .finish (.error e) := rfl
        rw [Stride.run_of_finish hfails]
        exact List.forall_mem_nil _
      | ok m => exact received_fetches t m rest

end Transfer

end Coap
