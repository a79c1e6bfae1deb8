import Coap.Proofs.ActivityRun
import Coap.Proofs.UploadRequests

/-! An upload against a server that may answer anything: which requests it sends, when it ends, and
with what result. -/
namespace Coap

/-- An answer after which nothing more is sent: an error, or a response that is no success. -/
def Outcome.Stops (answer : Outcome) : Prop :=
  ∀ m, answer = .ok m → m.code.isSuccess = false

namespace Upload

/-- The course of an upload against answers: the requests that it sends, and its result if it gets
that far. -/
inductive Course : Upload → List Outcome → List Message → Option Outcome → Prop
  | unreachable {u : Upload} {answers : List Outcome} {e : ClientError} :
      u.request = .error e → Course u answers [] (some (.error e))
  | unanswered {u : Upload} {r : Message} : u.request = .ok r → Course u [] [r] none
  | stopped {u : Upload} {r : Message} {answer : Outcome} {rest : List Outcome} :
      u.request = .ok r → answer.Stops → Course u (answer :: rest) [r] (some answer)
  | completed {u : Upload} {r m : Message} {rest : List Outcome} :
      u.request = .ok r → u.more = false → Course u (.ok m :: rest) [r] (some (.ok m))
  | continued {u : Upload} {r m : Message} {rest : List Outcome} {requests : List Message}
      {result : Option Outcome} :
      u.request = .ok r → u.more = true → m.code.isSuccess = true →
        Course (u.next m) rest requests result → Course u (.ok m :: rest) (r :: requests) result

theorem resume_turn (u : Upload) (m : Message) :
    (u.resume (.ok m)).turn =
      if m.code.isSuccess = true ∧ u.more = true then (u.next m).turn else .finish (.ok m) := by
  cases hs : m.code.isSuccess <;> cases hm : u.more <;> simp [resume, hs, hm]

theorem turn_of_request {u : Upload} {r : Message} (h : u.request = .ok r) : u.turn = .ask r u := by
  simp only [turn, h]

theorem turn_of_error {u : Upload} {e : ClientError} (h : u.request = .error e) :
    u.turn = .finish (.error e) := by
  simp only [turn, h]

theorem course_of_turn {u : Upload} {s : Stride Upload Outcome} (hs : s.turn = u.turn)
    (answers : List Outcome) :
    Course u answers (s.run resume answers).requests (s.run resume answers).result := by
  induction answers generalizing u s with
  | nil =>
    cases hr : u.request with
    | error e =>
      rw [Stride.run_of_finish (hs.trans (turn_of_error hr))]
      exact .unreachable hr
    | ok r =>
      rw [Stride.run_of_ask_nil (hs.trans (turn_of_request hr))]
      exact .unanswered hr
  | cons answer rest ih =>
    cases hr : u.request with
    | error e =>
      rw [Stride.run_of_finish (hs.trans (turn_of_error hr))]
      exact .unreachable hr
    | ok r =>
      rw [Stride.run_of_ask_cons (hs.trans (turn_of_request hr))]
      cases answer with
      | error e =>
        have hturn : (u.resume (.error e)).turn = .finish (.error e) := rfl
        rw [Stride.run_of_finish hturn]
        refine .stopped hr ?_
        intro m h
        cases h
      | ok m =>
        have ht := resume_turn u m
        by_cases hc : m.code.isSuccess = true ∧ u.more = true
        · rw [if_pos hc] at ht
          exact .continued hr hc.2 hc.1 (ih ht)
        · -- Either this was the answer to the last block, or it is no success.
          rw [if_neg hc] at ht
          rw [Stride.run_of_finish ht]
          cases hm : u.more with
          | false => exact .completed hr hm
          | true =>
            refine .stopped hr ?_
            intro m' h
            cases h
            simpa [hm] using hc

theorem next_offset_pos {u : Upload} (h : u.more = true) (m : Message) : 0 < (u.next m).offset := by
  have hs := u.size.bytes_pos
  change 0 < u.stop
  rw [stop_of_more h]
  omega

theorem acknowledgedSizes_cons (m : Message) (rest : List Outcome) :
    acknowledgedSizes (.ok m :: rest) = m.acknowledgedSize.toList ++ acknowledgedSizes rest := by
  unfold acknowledgedSizes
  rw [List.filterMap_cons]
  cases h : m.acknowledgedSize <;> simp only [h] <;> rfl

/-- A smallest size of what comes later is one of the whole, if it starts from the smallest so far.
-/
theorem isSmallest_next {u : Upload} {m : Message} {s : BlockSize} {rest : List Outcome}
    (h : s.IsSmallest ((u.next m).size :: acknowledgedSizes rest)) :
    s.IsSmallest (u.size :: acknowledgedSizes (.ok m :: rest)) := by
  have hn := u.nextSize_isSmallest m
  rw [acknowledgedSizes_cons]
  constructor
  · rcases List.mem_cons.mp h.1 with rfl | hs
    · exact (List.mem_append_left _ hn.1 : _ ∈ (u.size :: m.acknowledgedSize.toList) ++ _)
    · exact List.mem_cons_of_mem _ (List.mem_append_right _ hs)
  · intro other ho
    have hnext : s.bytes ≤ (u.nextSize m).bytes := h.2 _ (List.mem_cons_self ..)
    rw [← List.cons_append] at ho
    rcases List.mem_append.mp ho with ho | ho
    · exact Nat.le_trans hnext (hn.2 other ho)
    · exact h.2 other (List.mem_cons_of_mem _ ho)

/-- Every request of an upload is the next part of the payload, in blocks of the smallest size asked
for so far. Only the request for the first byte announces the size of the whole. -/
theorem course_parts {u : Upload} {answers : List Outcome} {requests : List Message}
    {result : Option Outcome} (hc : Course u answers requests result) (ha : u.Aligned) (k : Nat)
    (r : Message) (hk : requests[k]? = some r) :
    (∃ size : BlockSize, size.IsSmallest (u.size :: acknowledgedSizes (answers.take k)) ∧
      IsPart u.template u.payload size
        (u.payload.extract 0 u.offset ++ Message.joined (requests.take k)) r) ∧
    (u.offset = 0 ∧ k = 0 → Announces u.template u.payload r) ∧
    (u.offset ≠ 0 ∨ k ≠ 0 → r.otherThan [OptionKind.block1.number] =
      u.template.otherThan [OptionKind.block1.number]) := by
  have first {u : Upload} {q : Message} (ha : u.Aligned) (hq : u.request = .ok q) :
      (∃ size : BlockSize, size.IsSmallest [u.size] ∧ IsPart u.template u.payload size
        (u.payload.extract 0 u.offset ++ Message.joined []) q) ∧
      (u.offset = 0 ∧ (0 : Nat) = 0 → Announces u.template u.payload q) ∧
      (u.offset ≠ 0 ∨ (0 : Nat) ≠ 0 → q.otherThan [OptionKind.block1.number] =
        u.template.otherThan [OptionKind.block1.number]) := by
    refine ⟨⟨u.size, BlockSize.isSmallest_singleton u.size, ?_⟩,
      fun h => request_announces ha h.1 hq, ?_⟩
    · rw [Message.joined, ByteArray.append_empty]
      exact request_is_part ha hq
    · rintro (h | h)
      · exact request_others h hq
      · exact absurd rfl h
  -- The offset is the number of bytes sent so far, so that what is left starts after the present part.
  induction hc generalizing k with
  | unreachable => simp at hk
  | unanswered hr | stopped hr | completed hr =>
    obtain ⟨rfl, rfl⟩ : k = 0 ∧ _ = r := by simpa [List.getElem?_singleton] using hk
    exact first ha hr
  | @continued u q m rest requests result hr hm hs _ ih =>
    cases k with
    | zero =>
      cases hk
      exact first ha hr
    | succ k =>
      obtain ⟨⟨size, hsize, hpart⟩, -, hothers⟩ := ih (next_aligned ha hm m) k (by simpa using hk)
      refine ⟨⟨size, isSmallest_next hsize, ?_⟩, fun h => absurd h.2 (by omega), fun _ => ?_⟩
      · rw [List.take_succ_cons, Message.joined, request_payload hr, ← ByteArray.append_assoc,
          before_append_extract ha]
        exact hpart
      · exact hothers (Or.inl (Nat.ne_of_gt (next_offset_pos hm m)))

/-- Every block but the last takes at least sixteen bytes away from what is left. -/
theorem course_length {u : Upload} {answers : List Outcome} {requests : List Message}
    {result : Option Outcome} (hc : Course u answers requests result) :
    requests.length ≤ (u.payload.size - u.offset) / 16 + 1 := by
  induction hc with
  | unreachable | unanswered | stopped | completed => simp
  | @continued u q m rest requests result hr hm hs _ ih =>
    have hsize := u.size.sixteen_le_bytes
    have hstop := stop_of_more hm
    have hlt := u.more_iff.mp hm
    change requests.length ≤ (u.payload.size - u.stop) / 16 + 1 at ih
    rw [List.length_cons]
    omega

theorem course_open {u : Upload} {answers : List Outcome} {requests : List Message}
    {result : Option Outcome} (hc : Course u answers requests result) (hn : result = none) :
    requests.length = answers.length + 1 := by
  induction hc with
  | unreachable | stopped | completed => cases hn
  | unanswered => rfl
  | continued _ _ _ _ ih => rw [List.length_cons, ih hn, List.length_cons]

theorem course_stops {u : Upload} {answers : List Outcome} {requests : List Message}
    {result : Option Outcome} (hc : Course u answers requests result) (k : Nat) (answer : Outcome)
    (hk : k < requests.length) (ha : answers[k]? = some answer) (hs : answer.Stops) :
    requests.length = k + 1 ∧ result = some answer := by
  induction hc generalizing k with
  | unreachable => simp at hk
  | unanswered => simp at ha
  | stopped | completed =>
    obtain rfl : k = 0 := by simpa using hk
    exact ⟨rfl, by simpa using ha⟩
  | @continued u q m rest requests result hr hm hsuccess _ ih =>
    cases k with
    | zero =>
      cases ha
      rw [hs m rfl] at hsuccess
      cases hsuccess
    | succ k =>
      obtain ⟨hl, hres⟩ := ih k (by simpa using hk) (by simpa using ha)
      exact ⟨by rw [List.length_cons, hl], hres⟩

/-- How an upload may end. -/
inductive Ending (payload : ByteArray) (size : BlockSize) (answers : List Outcome)
    (requests : List Message) : Outcome → Prop
  /-- With the answer to its latest request, which either stops it or is for the last block. -/
  | answered {k : Nat} {outcome : Outcome} :
      requests.length = k + 1 → answers[k]? = some outcome →
      outcome.Stops ∨ Message.joined requests = payload →
        Ending payload size answers requests outcome
  /-- At once, with a payload that needs more blocks than have numbers. -/
  | tooLarge :
      requests = [] → Block.maxNumber < (payload.size - 1) / size.bytes →
        Ending payload size answers requests
          (.error (.invalidArgument (.tooManyBlocks payload.size size)))
  /-- At a block whose number is too large for the size that the server has asked for. -/
  | unreachable {number : UInt32} {small : BlockSize} :
      small.IsSmallest (size :: acknowledgedSizes (answers.take requests.length)) →
      number.toNat * small.bytes = (Message.joined requests).size → Block.maxNumber < number.toNat →
        Ending payload size answers requests
          (.error (.invalidArgument (.block (.numberOutOfRange number))))

theorem course_ending {u : Upload} {answers : List Outcome} {requests : List Message}
    {result : Option Outcome} (hc : Course u answers requests result) (ha : u.Aligned)
    (outcome : Outcome) (ho : result = some outcome) :
    (∃ k, requests.length = k + 1 ∧ answers[k]? = some outcome ∧
      (outcome.Stops ∨ u.payload.extract 0 u.offset ++ Message.joined requests = u.payload)) ∨
    ∃ (number : UInt32) (small : BlockSize),
      small.IsSmallest (u.size :: acknowledgedSizes (answers.take requests.length)) ∧
      number.toNat * small.bytes = u.offset + (Message.joined requests).size ∧
      Block.maxNumber < number.toNat ∧
      outcome = .error (.invalidArgument (.block (.numberOutOfRange number))) := by
  induction hc with
  | @unreachable u answers e hr =>
    obtain ⟨rfl, hn⟩ := request_eq_error hr
    cases ho
    refine Or.inr ⟨u.block.number, u.size, ?_, ?_, hn, rfl⟩
    · rw [List.length_nil, List.take_zero]
      exact BlockSize.isSmallest_singleton u.size
    · rw [Message.joined, ByteArray.size_empty, Nat.add_zero]
      exact number_mul_bytes ha
  | unanswered => cases ho
  | stopped hr hs =>
    cases ho
    exact Or.inl ⟨0, rfl, rfl, Or.inl hs⟩
  | @completed u r m rest hr hm =>
    cases ho
    refine Or.inl ⟨0, rfl, rfl, Or.inr ?_⟩
    rw [Message.joined, Message.joined, ByteArray.append_empty, request_payload hr,
      before_append_extract ha, stop_of_not_more hm, ByteArray.extract_zero_size]
  | @continued u q m rest requests result hr hm hsuccess _ ih =>
    have hbefore : u.payload.extract 0 u.offset ++ Message.joined (q :: requests) =
        u.payload.extract 0 u.stop ++ Message.joined requests := by
      rw [Message.joined, request_payload hr, ← ByteArray.append_assoc, before_append_extract ha]
    have hq : q.payload.size = u.stop - u.offset := by rw [request_payload hr, extract_size]
    have hle := offset_le_stop ha
    rcases ih (next_aligned ha hm m) ho with ⟨k, hl, hk, hend⟩ | ⟨number, small, hsize, hnum, hlt, rfl⟩
    · refine Or.inl ⟨k + 1, by rw [List.length_cons, hl], by simpa using hk, hend.imp_right ?_⟩
      intro hp
      rw [hbefore]
      exact hp
    · refine Or.inr ⟨number, small, isSmallest_next hsize, ?_, hlt, rfl⟩
      change number.toNat * small.bytes = u.stop + (Message.joined requests).size at hnum
      rw [hnum, Message.joined, ByteArray.size_append, hq]
      omega

/-- An upload against any answers. It ends after a bounded number of them. Its requests carry the
payload block by block, in the smallest size asked for so far; an error or an answer that is no
success ends it at once, and a success is its result only after the whole payload has been sent. -/
theorem upload_sound (template : Message) (payload : ByteArray) (size : BlockSize)
    (answers : List Outcome) :
    let t := Stride.run resume { turn := start template payload size } answers
    (payload.size / 16 < answers.length → t.result.isSome = true) ∧
    (t.result = none → t.requests.length = answers.length + 1) ∧
    (∀ k r, t.requests[k]? = some r →
      (∃ least : BlockSize, least.IsSmallest (size :: acknowledgedSizes (answers.take k)) ∧
        IsPart template payload least (Message.joined (t.requests.take k)) r) ∧
      (k = 0 → Announces template payload r) ∧
      (k ≠ 0 → r.otherThan [OptionKind.block1.number] =
        template.otherThan [OptionKind.block1.number])) ∧
    (∀ k answer, k < t.requests.length → answers[k]? = some answer → answer.Stops →
      t.requests.length = k + 1 ∧ t.result = some answer) ∧
    (∀ outcome, t.result = some outcome → Ending payload size answers t.requests outcome) := by
  intro t
  by_cases hlarge : Block.maxNumber < (payload.size - 1) / size.bytes
  · have hturn : start template payload size =
        .finish (.error (.invalidArgument (.tooManyBlocks payload.size size))) := if_pos hlarge
    have ht : t = { result := some (.error (.invalidArgument (.tooManyBlocks payload.size size))) } :=
      Stride.run_of_finish hturn answers
    rw [ht]
    refine ⟨fun _ => rfl, fun h => (by cases h), ?_, ?_, ?_⟩
    · intro k r h
      cases h
    · intro k answer h
      cases h
    · intro outcome h
      cases h
      exact .tooLarge rfl hlarge
  · let u : Upload := { template, payload, size, offset := 0 }
    have hnumbered : (payload.size - 1) / size.bytes ≤ Block.maxNumber := Nat.le_of_not_lt hlarge
    have hturn : start template payload size = u.turn := start_of_numbered template hnumbered
    have hc : Course u answers t.requests t.result := course_of_turn hturn answers
    have ha : u.Aligned := aligned_first template hnumbered
    have hnone : payload.extract 0 0 = ByteArray.empty := ByteArray.extract_same
    have hlen : t.requests.length ≤ payload.size / 16 + 1 := course_length hc
    refine ⟨?_, course_open hc, ?_, course_stops hc, ?_⟩
    · -- Without a result there would be more requests than there are blocks.
      intro hmany
      cases hres : t.result with
      | some outcome => rfl
      | none =>
        have hopen := course_open hc hres
        omega
    · intro k r hk
      obtain ⟨⟨least, hleast, hpart⟩, hfirst, hlater⟩ := course_parts hc ha k r hk
      refine ⟨⟨least, hleast, ?_⟩, fun h => hfirst ⟨rfl, h⟩, fun h => hlater (Or.inr h)⟩
      simpa only [u, hnone, ByteArray.empty_append] using hpart
    · intro outcome ho
      rcases course_ending hc ha outcome ho with ⟨k, hl, hk, hend⟩ | ⟨number, small, hsmall, hnum, hlt, rfl⟩
      · refine .answered hl hk (hend.imp_right ?_)
        intro hp
        simpa only [u, hnone, ByteArray.empty_append] using hp
      · exact .unreachable hsmall (by simpa only [u, Nat.zero_add] using hnum) hlt

/-- The sizes in all block options of an answer that can be read. -/
def offeredSizes : Outcome → List BlockSize
  | .error _ => []
  | .ok m => m.options.filterMap fun
    | .block1 value => (Block.decode value).toOption.map Block.size
    | _ => none

/-- Only the first block option of an answer counts. Where a second one asks for blocks of sixteen
bytes, the upload goes on in blocks of thirty-two. -/
theorem second_option_does_not_count :
    ¬ ∀ (template : Message) (payload : ByteArray) (size : BlockSize) (answers : List Outcome) (k : Nat)
      (r : Message),
      let t := Stride.run resume { turn := start template payload size } answers
      t.requests[k]? = some r →
        ∃ least : BlockSize, least.IsSmallest (size :: (answers.take k).flatMap offeredSizes) ∧
          IsPart template payload least (Message.joined (t.requests.take k)) r := by
  intro h
  let template : Message := { type := .confirmable, code := .request .put }
  let answer : Message :=
    { type := .acknowledgement, code := .response .continue, options := [.block1 9, .block1 8] }
  let payload : ByteArray := ⟨Array.replicate 96 1⟩
  let t := Stride.run resume { turn := start template payload .s32 } [.ok answer]
  have hsecond : t.requests[1]?.map (fun r => r.payload.size) = some 32 := by decide +kernel
  obtain ⟨r, hr, hr32⟩ := Option.map_eq_some_iff.mp hsecond
  obtain ⟨least, hleast, hpart⟩ := h template payload .s32 [.ok answer] 1 r hr
  have hsixteen : least.bytes ≤ 16 := hleast.2 .s16 (by decide)
  have hlength := hpart.length
  omega

end Upload

end Coap
