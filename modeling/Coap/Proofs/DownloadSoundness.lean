import Coap.Proofs.ActivityRun
import Coap.Proofs.DownloadBlocks

/-! A download against a server that may answer anything: which requests it sends, when it ends, and
with what result. The messages received so far carry consecutive blocks of one payload, whatever
arrives. -/
namespace Coap.Download

/-- The course of a download against answers: the requests that it sends, and its result if it gets
that far. -/
inductive Course : Download → List Outcome → List Message → Option (Except ClientError Assembly) → Prop
  | complete {d : Download} {answers : List Outcome} :
      d.block.more = false → Course d answers [] (some (.ok (.reassembled d.buffer)))
  | unreachable {d : Download} {answers : List Outcome} {e : ClientError} :
      d.block.more = true → d.request = .error e → Course d answers [] (some (.error e))
  | unanswered {d : Download} {r : Message} :
      d.block.more = true → d.request = .ok r → Course d [] [r] none
  | failed {d : Download} {r : Message} {e : ClientError} {rest : List Outcome} :
      d.block.more = true → d.request = .ok r → Course d (.error e :: rest) [r] (some (.error e))
  | rejected {d : Download} {r m : Message} {rest : List Outcome} :
      d.block.more = true → d.request = .ok r → m.code.isSuccess = false →
        Course d (.ok m :: rest) [r] (some (.ok (.rejected m)))
  | unreadable {d : Download} {r m : Message} {e : ClientError} {rest : List Outcome} :
      d.block.more = true → d.request = .ok r → m.responseBlock = .error e →
        Course d (.ok m :: rest) [r] (some (.error e))
  | misplaced {d : Download} {r m : Message} {b : Block} {rest : List Outcome} :
      d.block.more = true → d.request = .ok r → m.responseBlock = .ok b → b.offset ≠ d.buffer.size →
        Course d (.ok m :: rest) [r]
          (some (.error (.protocolViolation (.misplacedBlock d.buffer.size b))))
  | accepted {d : Download} {r m : Message} {b : Block} {rest : List Outcome} {requests : List Message}
      {result : Option (Except ClientError Assembly)} :
      d.block.more = true → d.request = .ok r → m.code.isSuccess = true → m.responseBlock = .ok b →
      b.offset = d.buffer.size → Course (d.accept m b) rest requests result →
        Course d (.ok m :: rest) (r :: requests) result

theorem turn_of_complete {d : Download} (h : d.block.more = false) :
    d.turn = .finish (.ok (.reassembled d.buffer)) := by
  simp [turn, h]

theorem turn_of_request {d : Download} {r : Message} (h : d.block.more = true)
    (hr : d.request = .ok r) : d.turn = .ask r d := by
  simp [turn, h, hr]

theorem turn_of_error {d : Download} {e : ClientError} (h : d.block.more = true)
    (he : d.request = .error e) : d.turn = .finish (.error e) := by
  simp [turn, h, he]

theorem resume_of_rejection {d : Download} {m : Message} (h : m.code.isSuccess = false) :
    (d.resume (.ok m)).turn = .finish (.ok (.rejected m)) := by
  simp [resume, h]

theorem resume_of_unreadable {d : Download} {m : Message} {e : ClientError}
    (h : m.code.isSuccess = true) (he : m.responseBlock = .error e) :
    (d.resume (.ok m)).turn = .finish (.error e) := by
  simp [resume, h, he]

theorem resume_of_misplaced {d : Download} {m : Message} {b : Block} (h : m.code.isSuccess = true)
    (hb : m.responseBlock = .ok b) (ho : b.offset ≠ d.buffer.size) :
    (d.resume (.ok m)).turn =
      .finish (.error (.protocolViolation (.misplacedBlock d.buffer.size b))) := by
  simp [resume, h, hb, ho]

theorem resume_of_accepted {d : Download} {m : Message} {b : Block} (h : m.code.isSuccess = true)
    (hb : m.responseBlock = .ok b) (ho : b.offset = d.buffer.size) :
    (d.resume (.ok m)).turn = (d.accept m b).turn := by
  simp [resume, h, hb, ho]

theorem course_of_turn {d : Download} {s : Stride Download (Except ClientError Assembly)}
    (hs : s.turn = d.turn) (answers : List Outcome) :
    Course d answers (s.run resume answers).requests (s.run resume answers).result := by
  induction answers generalizing d s with
  | nil =>
    cases hm : d.block.more with
    | false =>
      rw [Stride.run_of_finish (hs.trans (turn_of_complete hm))]
      exact .complete hm
    | true =>
      cases hr : d.request with
      | error e =>
        rw [Stride.run_of_finish (hs.trans (turn_of_error hm hr))]
        exact .unreachable hm hr
      | ok r =>
        rw [Stride.run_of_ask_nil (hs.trans (turn_of_request hm hr))]
        exact .unanswered hm hr
  | cons answer rest ih =>
    cases hm : d.block.more with
    | false =>
      rw [Stride.run_of_finish (hs.trans (turn_of_complete hm))]
      exact .complete hm
    | true =>
      cases hr : d.request with
      | error e =>
        rw [Stride.run_of_finish (hs.trans (turn_of_error hm hr))]
        exact .unreachable hm hr
      | ok r =>
        rw [Stride.run_of_ask_cons (hs.trans (turn_of_request hm hr))]
        cases answer with
        | error e =>
          rw [Stride.run_of_finish (show (d.resume (.error e)).turn = .finish (.error e) from rfl)]
          exact .failed hm hr
        | ok m =>
          cases hcode : m.code.isSuccess with
          | false =>
            rw [Stride.run_of_finish (resume_of_rejection hcode)]
            exact .rejected hm hr hcode
          | true =>
            cases hb : m.responseBlock with
            | error e =>
              rw [Stride.run_of_finish (resume_of_unreadable hcode hb)]
              exact .unreadable hm hr hb
            | ok b =>
              by_cases ho : b.offset = d.buffer.size
              · exact .accepted hm hr hcode hb ho (ih (resume_of_accepted hcode hb ho))
              · rw [Stride.run_of_finish (resume_of_misplaced hcode hb ho)]
                exact .misplaced hm hr hb ho

/-- How a download may end, after the messages `got` and the answers that it has used. -/
inductive Ending (got : List Message) : List Outcome → Except ClientError Assembly → Prop
  | reassembled {ms earlier : List Message} {m : Message} {b : Block} :
      Consecutive (got ++ ms) → got ++ ms = earlier ++ [m] → m.responseBlock = .ok b →
      b.more = false → Ending got (ms.map .ok) (.ok (.reassembled (Message.joined (got ++ ms))))
  | rejected {ms : List Message} {m : Message} :
      Consecutive (got ++ ms) → m.code.isSuccess = false →
        Ending got (ms.map .ok ++ [.ok m]) (.ok (.rejected m))
  | failed {ms : List Message} {e : ClientError} :
      Consecutive (got ++ ms) → Ending got (ms.map .ok ++ [.error e]) (.error e)
  /-- At the first message that is wrong after those before it. -/
  | violated {ms earlier : List Message} {m : Message} {what : Violation} :
      got ++ ms = earlier ++ [m] → Consecutive earlier → Unflawed earlier → Flaw earlier m what →
        Ending got (ms.map .ok) (.error (.protocolViolation what))

/-- An ending after one more message is an ending that has used one more answer. -/
theorem ending_cons {got : List Message} {m : Message} {used : List Outcome}
    {result : Except ClientError Assembly} (h : Ending (got ++ [m]) used result) :
    Ending got (.ok m :: used) result := by
  have hgot (ms : List Message) : got ++ [m] ++ ms = got ++ (m :: ms) := List.append_assoc got [m] ms
  cases h with
  | @reassembled ms earlier x b hc hlast hb hm =>
    rw [hgot] at hc hlast ⊢
    exact @Ending.reassembled got (m :: ms) earlier x b hc hlast hb hm
  | @rejected ms x hc hs =>
    rw [hgot] at hc
    exact @Ending.rejected got (m :: ms) x hc hs
  | @failed ms e hc =>
    rw [hgot] at hc
    exact @Ending.failed got (m :: ms) e hc
  | @violated ms earlier x what hlast hc hu hf =>
    rw [hgot] at hlast
    exact @Ending.violated got (m :: ms) earlier x what hlast hc hu hf

theorem consecutive_of_concat {earlier : List Message} {m : Message}
    (h : Consecutive (earlier ++ [m])) : Consecutive earlier := by
  intro k x hx
  have hk : k < earlier.length := (List.getElem?_eq_some_iff.mp hx).1
  obtain ⟨b, hb, hplace, hmore⟩ := h k x (by rw [List.getElem?_append_left hk, hx])
  rw [List.take_append_of_le_length (Nat.le_of_lt hk)] at hplace
  refine ⟨b, hb, hplace, fun hlt => hmore ?_⟩
  rw [List.length_append]
  omega

theorem flaw_of_unreadable (earlier : List Message) {m : Message} {e : ClientError}
    (h : m.responseBlock = .error e) : ∃ what, e = .protocolViolation what ∧ Flaw earlier m what := by
  unfold Message.responseBlock at h
  cases hv : m.block2Value with
  | none =>
    rw [hv] at h
    cases h
    exact ⟨.missingBlock, rfl, .missing hv⟩
  | some value =>
    cases hd : Block.decode value with
    | ok b => simp only [hv, hd] at h; cases h
    | error cause =>
      simp only [hv, hd] at h
      cases h
      exact ⟨.undecodableBlock cause, rfl, .undecodable hv hd⟩

/-- A request for the block after the latest of all messages received, which are `got` and the
answers `used`. -/
def Asks (template : Message) (got : List Message) (used : List Outcome) (r : Message) : Prop :=
  ∃ ms earlier m b, used = ms.map .ok ∧ got ++ ms = earlier ++ [m] ∧ Consecutive (got ++ ms) ∧
    m.responseBlock = .ok b ∧ b.more = true ∧ Continues template b r

theorem asks_of_request {d : Download} {r : Message} {got : List Message} (hg : d.Holds got)
    (hm : d.block.more = true) (hr : d.request = .ok r) : Asks d.template got [] r := by
  obtain ⟨earlier, m, hlast, hb, -⟩ := hg.last
  refine ⟨[], earlier, m, d.block, rfl, by rw [List.append_nil, hlast], ?_, hb, hm, ?_⟩
  · rw [List.append_nil]
    exact hg.consecutive
  · exact request_continues (Message.number_le_of_responseBlock hb) hr

theorem course_requests {d : Download} {answers : List Outcome} {requests : List Message}
    {result : Option (Except ClientError Assembly)} (hc : Course d answers requests result)
    {got : List Message} (hg : d.Holds got) (k : Nat) (r : Message) (hk : requests[k]? = some r) :
    Asks d.template got (answers.take k) r := by
  -- A message that is accepted is one more of those received so far.
  induction hc generalizing got k with
  | complete | unreachable => simp at hk
  | unanswered hm hr | failed hm hr | rejected hm hr | unreadable hm hr | misplaced hm hr =>
    obtain ⟨rfl, rfl⟩ : k = 0 ∧ _ = r := by simpa [List.getElem?_singleton] using hk
    exact asks_of_request hg hm hr
  | @accepted d q m b rest requests result hm hr hs hb ho _ ih =>
    cases k with
    | zero =>
      cases hk
      exact asks_of_request hg hm hr
    | succ k =>
      obtain ⟨ms, earlier, x, b', hans, hlast, hcons, hb', hmore, hcont⟩ :=
        ih (accept_holds hg hr hm hs hb ho) k (by simpa using hk)
      rw [List.append_assoc, List.singleton_append] at hlast hcons
      exact ⟨m :: ms, earlier, x, b', by rw [List.take_succ_cons, hans, List.map_cons], hlast, hcons,
        hb', hmore, hcont⟩

theorem course_open {d : Download} {answers : List Outcome} {requests : List Message}
    {result : Option (Except ClientError Assembly)} (hc : Course d answers requests result)
    (hn : result = none) : requests.length = answers.length + 1 := by
  induction hc with
  | complete | unreachable | failed | rejected | unreadable | misplaced => cases hn
  | unanswered => rfl
  | accepted _ _ _ _ _ _ ih => rw [List.length_cons, ih hn, List.length_cons]

theorem course_ending {d : Download} {answers : List Outcome} {requests : List Message}
    {result : Option (Except ClientError Assembly)} (hc : Course d answers requests result)
    {got : List Message} (hg : d.Holds got) (res : Except ClientError Assembly)
    (hres : result = some res) :
    requests.length ≤ answers.length ∧ Ending got (answers.take requests.length) res := by
  induction hc generalizing got with
  | @complete d answers hm =>
    cases hres
    obtain ⟨earlier, m, hlast, hb, -⟩ := hg.last
    refine ⟨Nat.zero_le _, ?_⟩
    have hnil : got ++ [] = got := List.append_nil got
    have hend := @Ending.reassembled got [] earlier m d.block (by rw [hnil]; exact hg.consecutive)
      (by rw [hnil, hlast]) hb hm
    rw [hnil, ← hg.joined] at hend
    exact hend
  | @unreachable d answers e hm hr =>
    -- The latest block announces more, but is the last one that has a number.
    cases hres
    obtain ⟨rfl, hn⟩ := request_eq_error hr
    obtain ⟨earlier, m, rfl, hb, hu⟩ := hg.last
    obtain ⟨b, hb', hplace, -⟩ := hg.consecutive earlier.length m (by simp)
    rw [hb] at hb'
    cases hb'
    rw [List.take_left] at hplace
    rw [next_number (Message.number_le_of_responseBlock hb)] at hn
    refine ⟨Nat.zero_le _, ?_⟩
    exact @Ending.violated _ [] earlier m _ (List.append_nil _) (consecutive_of_concat hg.consecutive)
      hu (.unreachable hb (fun hne => (hplace (by simpa using hne)).2) hm hn)
  | unanswered => cases hres
  | failed hm hr =>
    cases hres
    refine ⟨by simp, ?_⟩
    exact @Ending.failed got [] _ (by rw [List.append_nil]; exact hg.consecutive)
  | rejected hm hr hs =>
    cases hres
    refine ⟨by simp, ?_⟩
    exact @Ending.rejected got [] _ (by rw [List.append_nil]; exact hg.consecutive) hs
  | @unreadable d q m e rest hm hr he =>
    cases hres
    obtain ⟨what, rfl, hf⟩ := flaw_of_unreadable got he
    refine ⟨by simp, ?_⟩
    exact @Ending.violated got [m] got m what rfl hg.consecutive (unflawed_of_request hg hr) hf
  | @misplaced d q m b rest hm hr hb ho =>
    cases hres
    refine ⟨by simp, ?_⟩
    rw [hg.joined] at ho ⊢
    exact @Ending.violated got [m] got m _ rfl hg.consecutive (unflawed_of_request hg hr)
      (.misplaced hb hg.ne_nil ho)
  | accepted hm hr hs hb ho _ ih =>
    obtain ⟨hle, hend⟩ := ih (accept_holds hg hr hm hs hb ho) hres
    refine ⟨by simpa using hle, ?_⟩
    rw [List.length_cons, List.take_succ_cons]
    exact ending_cons hend

theorem course_failed {d : Download} {answers : List Outcome} {requests : List Message}
    {result : Option (Except ClientError Assembly)} (hc : Course d answers requests result) (k : Nat)
    (e : ClientError) (hk : k < requests.length) (ha : answers[k]? = some (.error e)) :
    requests.length = k + 1 ∧ result = some (.error e) := by
  induction hc generalizing k with
  | complete | unreachable => simp at hk
  | unanswered => simp at ha
  | failed =>
    obtain rfl : k = 0 := by simpa using hk
    cases ha
    exact ⟨rfl, rfl⟩
  | rejected | unreadable | misplaced =>
    obtain rfl : k = 0 := by simpa using hk
    cases ha
  | accepted _ _ _ _ _ _ ih =>
    cases k with
    | zero => cases ha
    | succ k =>
      obtain ⟨hl, hr⟩ := ih k (by simpa using hk) (by simpa using ha)
      exact ⟨by rw [List.length_cons, hl], hr⟩

theorem holds_first {template first : Message} {b : Block} {announced : Option Nat}
    (h : first.responseBlock = .ok b) :
    Holds { template, announced, buffer := first.payload, block := b } [first] := by
  refine ⟨?_, ?_, ⟨[], first, rfl, h, ?_⟩⟩
  · rw [Message.joined, Message.joined, ByteArray.append_empty]
  · intro k m hk
    obtain ⟨rfl, rfl⟩ : k = 0 ∧ first = m := by simpa [List.getElem?_singleton] using hk
    exact ⟨b, h, fun h0 => absurd rfl h0, fun hlt => absurd hlt (by simp)⟩
  · intro k m hk
    cases hk

theorem run_of_unreadable {first : Message} {e : ClientError} (h : first.responseBlock = .error e)
    (template : Message) (answers : List Outcome) :
    (start template first).run resume answers = { result := some (.error e) } := by
  have hturn : (start template first).turn = .finish (.error e) := by simp [start, h]
  have hreports : (start template first).reports = [] := by simp [start, h]
  rw [Stride.run_of_finish hturn, hreports]

theorem turn_of_start {first : Message} {b : Block} (h : first.responseBlock = .ok b)
    (template : Message) :
    (start template first).turn =
      turn { template, announced := first.size2Value.map UInt32.toNat, buffer := first.payload,
             block := b } := by
  simp [start, h]

/-- A download whose first message carries a block goes its course from there. -/
theorem course_of_start {first : Message} {b : Block} (h : first.responseBlock = .ok b)
    (template : Message) (answers : List Outcome) :
    ∃ d : Download, d.template = template ∧ d.block = b ∧ d.buffer = first.payload ∧
      d.Holds [first] ∧
      Course d answers ((start template first).run resume answers).requests
        ((start template first).run resume answers).result :=
  ⟨_, rfl, rfl, rfl, holds_first h, course_of_turn (turn_of_start h template) answers⟩

theorem ending_of_start (template first : Message) (answers : List Outcome)
    (result : Except ClientError Assembly)
    (h : ((start template first).run resume answers).result = some result) :
    ((start template first).run resume answers).requests.length ≤ answers.length ∧
      Ending [first] (answers.take ((start template first).run resume answers).requests.length)
        result := by
  cases hb : first.responseBlock with
  | error e =>
    rw [run_of_unreadable hb] at h ⊢
    obtain ⟨what, rfl, hf⟩ := flaw_of_unreadable [] hb
    cases h
    refine ⟨Nat.zero_le _, @Ending.violated [first] [] [] first what rfl ?_ ?_ hf⟩
    · intro k m h
      cases h
    · intro k m h
      cases h
  | ok b =>
    obtain ⟨d, -, -, -, hg, hc⟩ := course_of_start hb template answers
    exact course_ending hc hg result h

/-- A download against any answers. Each request is for the block after those received so far, which
are consecutive. The payload that it returns is made of exactly these; an answer that is no success
is returned as it is, an error of the exchange as well, and anything else is a violation at the
first message that is wrong. -/
theorem download_sound (template first : Message) (answers : List Outcome) :
    let t := Stride.run resume (start template first) answers
    (t.result = none → t.requests.length = answers.length + 1) ∧
    (∀ k r, t.requests[k]? = some r → Asks template [first] (answers.take k) r) ∧
    (∀ k e, k < t.requests.length → answers[k]? = some (.error e) →
      t.requests.length = k + 1 ∧ t.result = some (.error e)) ∧
    (∀ result, t.result = some result → t.requests.length ≤ answers.length ∧
      Ending [first] (answers.take t.requests.length) result) := by
  intro t
  have hending : ∀ result, t.result = some result → t.requests.length ≤ answers.length ∧
      Ending [first] (answers.take t.requests.length) result :=
    ending_of_start template first answers
  cases hb : first.responseBlock with
  | error e =>
    have ht : t = { result := some (.error e) } := run_of_unreadable hb template answers
    have hnone : t.requests = [] := by rw [ht]
    refine ⟨?_, ?_, ?_, hending⟩
    · intro h
      rw [ht] at h
      cases h
    · intro k r h
      rw [hnone] at h
      cases h
    · intro k e h
      rw [hnone] at h
      cases h
  | ok b =>
    obtain ⟨d, rfl, -, -, hg, hc⟩ := course_of_start hb template answers
    exact ⟨course_open hc, course_requests hc hg, course_failed hc, hending⟩

end Coap.Download
