import Coap.Proofs.DownloadSoundness

/-! What a download takes in of the messages that arrive, and what it reports on the way. A request
counts on from the number and the size of the latest block, while a block is taken in if it starts
where the bytes received so far end. -/
namespace Coap.Download

/-- The messages that are taken in of those that arrive: as many as carry consecutive blocks. -/
structure Accepts (arrived : List Outcome) (taken : List Message) : Prop where
  stream : ∃ rest, arrived = taken.map .ok ++ rest
  consecutive : Consecutive taken
  maximal : ∀ m rest, arrived = taken.map .ok ++ .ok m :: rest → ¬ Consecutive (taken ++ [m])

/-- The latest message announces that its block is the last one. -/
def Complete (taken : List Message) : Prop :=
  ∃ earlier m b, taken = earlier ++ [m] ∧ m.responseBlock = .ok b ∧ b.more = false

/-- The report on a block, where `received` are the messages up to the one that carries it. -/
def reportOn (announced : Option Nat) (received : List Message) (b : Block) : Progress :=
  { direction := .download
    number := b.number
    size := b.size
    bytes := (Message.joined received).size
    total := if b.more then announced else some (Message.joined received).size
    last := !b.more }

/-- One report for each message, in their order. -/
structure Reports (announced : Option Nat) (taken : List Message) (reports : List Progress) : Prop where
  length : reports.length = taken.length
  each : ∀ k m, taken[k]? = some m → ∃ b, m.responseBlock = .ok b ∧
    reports[k]? = some (reportOn announced (taken.take (k + 1)) b)

theorem reports_nil (announced : Option Nat) : Reports announced [] [] :=
  ⟨rfl, fun _ _ h => nomatch h⟩

theorem reports_concat {announced : Option Nat} {taken : List Message} {reports : List Progress}
    {m : Message} {b : Block} (h : Reports announced taken reports) (hb : m.responseBlock = .ok b) :
    Reports announced (taken ++ [m]) (reports ++ [reportOn announced (taken ++ [m]) b]) := by
  refine ⟨by simp [h.length], ?_⟩
  intro k x hx
  -- The reports up to now stay at their places, and the new one comes after them.
  rcases Nat.lt_or_ge k taken.length with hk | hk
  · rw [List.getElem?_append_left hk] at hx
    rw [List.take_append_of_le_length hk, List.getElem?_append_left (by rw [h.length]; exact hk)]
    exact h.each k x hx
  · rw [List.getElem?_append_right hk, List.getElem?_singleton] at hx
    split at hx
    · next h0 =>
      cases hx
      have hlen : k = reports.length := by rw [h.length]; omega
      refine ⟨b, hb, ?_⟩
      rw [List.take_of_length_le (by rw [List.length_append, List.length_singleton]; omega), hlen,
        List.getElem?_concat_length]
    · cases hx

theorem report_of_holds {d : Download} {got : List Message} (h : d.Holds got) :
    d.report = reportOn d.announced got d.block := by
  unfold report reportOn
  rw [h.joined]

/-- A message that belongs to consecutive blocks carries one of them. -/
theorem last_of_consecutive {earlier : List Message} {m : Message}
    (h : Consecutive (earlier ++ [m])) :
    ∃ b, m.responseBlock = .ok b ∧
      (earlier ≠ [] → m.code.isSuccess = true ∧ b.offset = (Message.joined earlier).size) := by
  obtain ⟨b, hb, hplace, -⟩ := h earlier.length m (by simp)
  rw [List.take_left] at hplace
  exact ⟨b, hb, fun hne => hplace (by simpa using hne)⟩

theorem not_complete {d : Download} {got : List Message} (h : d.Holds got)
    (hmore : d.block.more = true) : ¬ Complete got := by
  rintro ⟨earlier, m, b, hgot, hb, hlast⟩
  obtain ⟨earlier', m', hgot', hb', -⟩ := h.last
  obtain ⟨-, hsame⟩ := List.append_inj' (hgot.symm.trans hgot') rfl
  cases hsame
  rw [hb] at hb'
  cases hb'
  rw [hmore] at hlast
  cases hlast

/-- What comes of a download that has received `got`, with the answers `used` still to come: the
messages that it takes in, and the reports on those that are new. -/
structure Intake (announced : Option Nat) (got : List Message) (used : List Outcome)
    (result : Option (Except ClientError Assembly)) (taken : List Message) (later : List Progress) :
    Prop where
  accepts : Accepts (got.map .ok ++ used) taken
  whole : ∀ payload, result = some (.ok (.reassembled payload)) ↔
    payload = Message.joined taken ∧ Complete taken
  reports : ∀ before, Reports announced got before → Reports announced taken (before ++ later)

/-- A download that takes in nothing more. -/
theorem intake_of_rest {announced : Option Nat} {got : List Message} {used : List Outcome}
    {result : Option (Except ClientError Assembly)} (hc : Consecutive got)
    (hrest : ∀ m rest, used = .ok m :: rest → ¬ Consecutive (got ++ [m]))
    (hwhole : ∀ payload, result = some (.ok (.reassembled payload)) ↔
      payload = Message.joined got ∧ Complete got) :
    Intake announced got used result got [] where
  accepts := by
    refine ⟨⟨used, rfl⟩, hc, ?_⟩
    intro m rest harrived
    exact hrest m rest (List.append_cancel_left harrived)
  whole := hwhole
  reports before h := by rwa [List.append_nil]

/-- A download that stops while more blocks are announced. -/
theorem intake_of_stop {d : Download} {got : List Message} {used : List Outcome}
    {result : Option (Except ClientError Assembly)} (hg : d.Holds got) (hm : d.block.more = true)
    (hrest : ∀ m rest, used = .ok m :: rest → ¬ Consecutive (got ++ [m]))
    (hresult : ∀ payload, result ≠ some (.ok (.reassembled payload))) :
    Intake d.announced got used result got [] :=
  intake_of_rest hg.consecutive hrest fun payload =>
    iff_of_false (hresult payload) fun h => not_complete hg hm h.2

/-- A message is refused if it is no success, carries no block, or one that starts elsewhere. -/
def Refuses (d : Download) (m : Message) : Prop :=
  ∀ b, m.code.isSuccess = true → m.responseBlock = .ok b → b.offset ≠ d.buffer.size

theorem resume_of_refused {d : Download} {m : Message} (h : d.Refuses m) :
    ∃ result, d.resume (.ok m) = { turn := .finish result } := by
  cases hcode : m.code.isSuccess with
  | false => exact ⟨.ok (.rejected m), by simp [resume, hcode]⟩
  | true =>
    cases hb : m.responseBlock with
    | error e => exact ⟨.error e, by simp [resume, hcode, hb]⟩
    | ok b =>
      have ho : b.offset ≠ d.buffer.size := h b hcode hb
      exact ⟨.error (.protocolViolation (.misplacedBlock d.buffer.size b)),
        by simp [resume, hcode, hb, ho]⟩

theorem not_consecutive_of_refused {d : Download} {got : List Message} {m : Message}
    (hg : d.Holds got) (h : d.Refuses m) : ¬ Consecutive (got ++ [m]) := by
  intro hcons
  obtain ⟨b, hb, hplace⟩ := last_of_consecutive hcons
  obtain ⟨hcode, ho⟩ := hplace hg.ne_nil
  rw [← hg.joined] at ho
  exact h b hcode hb ho

/-- A message that is refused leaves a download with what it has received, and without a report. -/
theorem intake_of_refused {d : Download} {got : List Message} {r m : Message} {rest : List Outcome}
    {result : Option (Except ClientError Assembly)} (hg : d.Holds got) (hm : d.block.more = true)
    (hr : d.request = .ok r) (href : d.Refuses m)
    (hresult : ∀ payload, result ≠ some (.ok (.reassembled payload)))
    {s : Stride Download (Except ClientError Assembly)} (hs : s.turn = d.turn) :
    ∃ taken later, (s.run resume (.ok m :: rest)).reports = s.reports ++ later ∧
      Intake d.announced got ((.ok m :: rest).take [r].length) result taken later := by
  obtain ⟨final, hfinal⟩ := resume_of_refused href
  rw [Stride.run_of_ask_cons (hs.trans (turn_of_request hm hr)), hfinal, Stride.run_of_finish rfl]
  refine ⟨got, [], rfl, intake_of_stop hg hm ?_ hresult⟩
  intro x later hx
  cases hx
  exact not_consecutive_of_refused hg href

theorem course_intake {d : Download} {answers : List Outcome} {requests : List Message}
    {result : Option (Except ClientError Assembly)} (hc : Course d answers requests result)
    {got : List Message} (hg : d.Holds got) {s : Stride Download (Except ClientError Assembly)}
    (hs : s.turn = d.turn) :
    ∃ taken later, (s.run resume answers).reports = s.reports ++ later ∧
      Intake d.announced got (answers.take requests.length) result taken later := by
  -- Along the answers: the download always holds what has been taken in so far.
  induction hc generalizing got s with
  | @complete d answers hm =>
    rw [Stride.run_of_finish (hs.trans (turn_of_complete hm))]
    refine ⟨got, [], (List.append_nil _).symm,
      intake_of_rest hg.consecutive (fun _ _ h => nomatch h) ?_⟩
    obtain ⟨earlier, m, hlast, hb, -⟩ := hg.last
    intro payload
    rw [hg.joined]
    constructor
    · intro h
      cases h
      exact ⟨rfl, earlier, m, d.block, hlast, hb, hm⟩
    · rintro ⟨rfl, -⟩
      rfl
  | unreachable hm hr =>
    rw [Stride.run_of_finish (hs.trans (turn_of_error hm hr))]
    exact ⟨got, [], (List.append_nil _).symm,
      intake_of_stop hg hm (fun _ _ h => nomatch h) (fun _ h => nomatch h)⟩
  | unanswered hm hr =>
    rw [Stride.run_of_ask_nil (hs.trans (turn_of_request hm hr))]
    exact ⟨got, [], (List.append_nil _).symm,
      intake_of_stop hg hm (fun _ _ h => nomatch h) (fun _ h => nomatch h)⟩
  | @failed d r e rest hm hr =>
    have hfails : (d.resume (.error e)).turn = .finish (.error e) := rfl
    rw [Stride.run_of_ask_cons (hs.trans (turn_of_request hm hr)), Stride.run_of_finish hfails]
    exact ⟨got, [], rfl, intake_of_stop hg hm (fun _ _ h => nomatch h) (fun _ h => nomatch h)⟩
  -- Each of the three ways in which an answer can be wrong is a refusal.
  | rejected hm hr hcode =>
    refine intake_of_refused hg hm hr ?_ (fun _ h => by cases h) hs
    intro b hsuccess
    rw [hcode] at hsuccess
    cases hsuccess
  | unreadable hm hr he =>
    refine intake_of_refused hg hm hr ?_ (fun _ h => by cases h) hs
    intro b _ hb
    rw [he] at hb
    cases hb
  | misplaced hm hr hb ho =>
    refine intake_of_refused hg hm hr ?_ (fun _ h => by cases h) hs
    intro b' _ hb'
    rw [hb] at hb'
    cases hb'
    exact ho
  | @accepted d r m b rest requests result hm hr hcode hb ho _ ih =>
    -- One message more, with its report; what comes after it is taken in by the rest.
    have hnow : (d.accept m b).Holds (got ++ [m]) := accept_holds hg hr hm hcode hb ho
    obtain ⟨taken, later, hlater, hintake⟩ := ih hnow (resume_of_accepted hcode hb ho)
    have hreport : (d.resume (.ok m)).reports = [reportOn d.announced (got ++ [m]) b] := by
      have hthis : (d.resume (.ok m)).reports = [(d.accept m b).report] := by
        simp [resume, hcode, hb, ho]
      rw [hthis, report_of_holds hnow]
      rfl
    rw [Stride.run_of_ask_cons (hs.trans (turn_of_request hm hr))]
    dsimp only
    rw [hlater, hreport]
    refine ⟨taken, _, rfl, ?_, hintake.whole, ?_⟩
    · have harrived := hintake.accepts
      rw [List.map_append, List.append_assoc] at harrived
      exact harrived
    · intro before hbefore
      rw [← List.append_assoc]
      exact hintake.reports _ (reports_concat hbefore hb)

/-- What a download takes in of all that it gets, the first message included. -/
theorem intake_of_start (template first : Message) (answers : List Outcome) :
    let t := Stride.run resume (start template first) answers
    ∃ taken, Accepts (.ok first :: answers.take t.requests.length) taken ∧
      (∀ payload, t.result = some (.ok (.reassembled payload)) ↔
        payload = Message.joined taken ∧ Complete taken) ∧
      Reports (first.size2Value.map UInt32.toNat) taken t.reports := by
  intro t
  cases hb : first.responseBlock with
  | error e =>
    have ht : t = { result := some (.error e) } := run_of_unreadable hb template answers
    rw [ht]
    -- Without a block to read, not even the first message is taken in.
    refine ⟨[], ⟨⟨_, rfl⟩, ?_, ?_⟩, ?_, reports_nil _⟩
    · intro k m h
      cases h
    · intro m rest harrived hcons
      cases harrived
      obtain ⟨b, hb', -⟩ := @last_of_consecutive [] first hcons
      rw [hb] at hb'
      cases hb'
    · intro payload
      refine iff_of_false (fun h => by cases h) ?_
      rintro ⟨-, earlier, m, b, hnil, -⟩
      simp at hnil
  | ok b =>
    let d : Download :=
      { template, announced := first.size2Value.map UInt32.toNat, buffer := first.payload, block := b }
    have hg : d.Holds [first] := holds_first hb
    have hturn : (start template first).turn = d.turn := turn_of_start hb template
    obtain ⟨taken, later, hlater, hintake⟩ :=
      course_intake (course_of_turn hturn answers) hg hturn
    have hfirst : (start template first).reports = [reportOn d.announced [first] b] := by
      have hthis : (start template first).reports = [d.report] := by simp [start, hb, d]
      rw [hthis, report_of_holds hg]
    refine ⟨taken, hintake.accepts, hintake.whole, ?_⟩
    have hreports : t.reports = [reportOn d.announced [first] b] ++ later := by
      rw [← hfirst]
      exact hlater
    rw [hreports]
    exact hintake.reports _ (reports_concat (reports_nil _) hb)

/-- Every message but the first is the answer to the request at its place. -/
theorem answer_of_accepts {first m : Message} {answers : List Outcome} {taken : List Message}
    {n k : Nat} (h : Accepts (.ok first :: answers.take n) taken) (hk : taken[k + 1]? = some m) :
    k < n ∧ answers[k]? = some (.ok m) := by
  obtain ⟨rest, harrived⟩ := h.stream
  have hat : (Except.ok first :: answers.take n)[k + 1]? = some (.ok m : Outcome) := by
    have hlt : k + 1 < (taken.map (Except.ok : Message → Outcome)).length := by
      rw [List.length_map]
      exact (List.getElem?_eq_some_iff.mp hk).1
    rw [harrived, List.getElem?_append_left hlt, List.getElem?_map, hk]
    rfl
  rw [List.getElem?_cons_succ, List.getElem?_take] at hat
  split at hat
  · next hlt => exact ⟨hlt, hat⟩
  · cases hat

theorem take_of_accepts {first : Message} {answers : List Outcome} {taken : List Message} {n k : Nat}
    (h : Accepts (.ok first :: answers.take n) taken) (hn : k ≤ n) (hk : k < taken.length) :
    (taken.take (k + 1)).map .ok = .ok first :: answers.take k := by
  obtain ⟨rest, harrived⟩ := h.stream
  have htake := congrArg (List.take (k + 1)) harrived
  rw [List.take_append_of_le_length (by rw [List.length_map]; exact hk), List.take_succ_cons,
    List.take_take, Nat.min_eq_left hn] at htake
  rw [List.map_take, htake]

/-- The request after some messages asks for the block after the latest of them. -/
theorem continues_of_accepts {template first before m : Message} {answers : List Outcome}
    {taken : List Message} {k : Nat}
    (h : Accepts (.ok first :: answers.take
      ((start template first).run resume answers).requests.length) taken)
    (hbefore : taken[k]? = some before) (hm : taken[k + 1]? = some m) :
    ∃ r b, ((start template first).run resume answers).requests[k]? = some r ∧
      before.responseBlock = .ok b ∧ b.more = true ∧ Continues template b r := by
  obtain ⟨hk, hanswer⟩ := answer_of_accepts h hm
  obtain ⟨r, hr⟩ : ∃ r, ((start template first).run resume answers).requests[k]? = some r :=
    ⟨_, List.getElem?_eq_getElem hk⟩
  cases hb : first.responseBlock with
  | error e =>
    rw [run_of_unreadable hb] at hk
    simp at hk
  | ok b =>
    obtain ⟨d, rfl, -, -, hg, hc⟩ := course_of_start hb template answers
    obtain ⟨ms, earlier, x, b', hused, hlast, -, hb', hmore, hcont⟩ := course_requests hc hg k r hr
    -- What the course has got before this request is what has been taken in up to `before`.
    have htaken : taken.take (k + 1) = [first] ++ ms := by
      apply (List.map_inj_right (f := (Except.ok : Message → Outcome)) fun _ _ => Except.ok.inj).mp
      rw [take_of_accepts h (Nat.le_of_lt hk) (List.getElem?_eq_some_iff.mp hbefore).1, hused]
      rfl
    have hsplit : taken.take k ++ [before] = earlier ++ [x] := by
      rw [← hlast, ← htaken, List.take_add_one, hbefore]
      rfl
    obtain ⟨-, hsame⟩ := List.append_inj' hsplit rfl
    cases hsame
    exact ⟨r, b', hr, hb', hmore, hcont⟩

/-- Where an answer lies that is taken in after the messages `got`, the latest of which has carried
`before`, if `asked` is the block that it has been asked for. -/
structure Placed (got : List Message) (before asked received : Block) : Prop where
  more : before.more = true
  number : asked.number.toNat = before.number.toNat + 1
  size : asked.size = before.size
  place : received.offset = (Message.joined got).size
  /-- It is the block asked for if the block before ends where its number and its size say. -/
  agrees : received.offset = asked.offset ↔
    before.offset + before.size.bytes = (Message.joined got).size

/-- A block is taken in at the end of the bytes received so far, while the place that it has been
asked for follows from the number and the size of the block before. The two are the same exactly if
all of that block has come, no less and no more; nothing sees to this. (For the block after the first
one, if the first one was the beginning.) -/
theorem requested_place_iff_full (template first : Message) (answers : List Outcome) :
    let t := Stride.run resume (start template first) answers
    ∃ taken, Accepts (.ok first :: answers.take t.requests.length) taken ∧
      (∀ payload, t.result = some (.ok (.reassembled payload)) ↔
        payload = Message.joined taken ∧ Complete taken) ∧
      ∀ k m m', taken[k]? = some m → taken[k + 1]? = some m' →
        ∃ r before asked received, t.requests[k]? = some r ∧ answers[k]? = some (.ok m') ∧
          m.responseBlock = .ok before ∧ r.responseBlock = .ok asked ∧
          m'.responseBlock = .ok received ∧ Placed (taken.take (k + 1)) before asked received ∧
          (k ≠ 0 ∨ before.offset = 0 →
            (received.offset = asked.offset ↔ m.payload.size = before.size.bytes)) := by
  intro t
  obtain ⟨taken, haccepts, hwhole, -⟩ := intake_of_start template first answers
  refine ⟨taken, haccepts, hwhole, ?_⟩
  intro k m m' hm hm'
  obtain ⟨-, hanswer⟩ := answer_of_accepts haccepts hm'
  obtain ⟨r, before, hr, hbefore, hmore, hcont⟩ := continues_of_accepts haccepts hm hm'
  obtain ⟨value, asked, hvalue, hdecode, hnumber, hsize, -⟩ := hcont.block
  have hasked : r.responseBlock = .ok asked :=
    Message.responseBlock_eq_ok_iff.mpr ⟨value, Message.block2Value_of_numbered hvalue, hdecode⟩
  obtain ⟨received, hreceived, hplace, -⟩ := haccepts.consecutive (k + 1) m' hm'
  have hend : received.offset = (Message.joined (taken.take (k + 1))).size :=
    (hplace (Nat.succ_ne_zero k)).2
  have hnext : asked.offset = before.offset + before.size.bytes :=
    calc
      asked.offset = (before.number.toNat + 1) * before.size.bytes := by
        unfold Block.offset
        rw [hnumber, hsize]
      _ = before.offset + before.size.bytes := Nat.succ_mul ..
  have hgot : (Message.joined (taken.take (k + 1))).size =
      (Message.joined (taken.take k)).size + m.payload.size := by
    rw [List.take_add_one, hm, Option.toList_some, Message.joined_concat, ByteArray.size_append]
  refine ⟨r, before, asked, received, hr, hanswer, hbefore, hasked, hreceived,
    ⟨hmore, hnumber, hsize, hend, ?_⟩, ?_⟩
  · rw [hend, hnext, eq_comm]
  · intro hfrom
    -- The block before has been taken in at the end of those before it, too.
    have hstart : before.offset = (Message.joined (taken.take k)).size := by
      cases k with
      | zero => exact hfrom.resolve_left (fun h => h rfl)
      | succ k =>
        obtain ⟨b, hb, hplace, -⟩ := haccepts.consecutive (k + 1) m hm
        rw [hbefore] at hb
        cases hb
        exact (hplace (Nat.succ_ne_zero k)).2
    rw [hend, hnext, hgot, ← hstart]
    omega

/-- A response in the first block of 32 bytes, which brings only half of them. -/
def halfBlock : Message :=
  { type := .acknowledgement, code := .response .content, options := [.block2 9]
    payload := ⟨Array.replicate 16 1⟩ }

/-- A response in the second block of sixteen bytes, the last one. -/
def secondBlock : Message :=
  { type := .acknowledgement, code := .response .content, options := [.block2 16]
    payload := ⟨#[1, 2, 3, 4]⟩ }

/-- After half a block the next one is asked for at the place where all of it would end, but one that
starts in its middle is taken in, and the payload is put together from both. -/
theorem other_block_is_taken_in :
    (¬ ∀ (template first : Message) (answers : List Outcome) (taken : List Message),
      let t := Stride.run resume (start template first) answers
      Accepts (.ok first :: answers.take t.requests.length) taken →
        ∀ k r m asked received, t.requests[k]? = some r → taken[k + 1]? = some m →
          r.responseBlock = .ok asked → m.responseBlock = .ok received →
            received.offset = asked.offset) ∧
    (¬ ∀ (template first : Message) (answers : List Outcome) (taken : List Message)
        (payload : ByteArray),
      let t := Stride.run resume (start template first) answers
      Accepts (.ok first :: answers.take t.requests.length) taken →
        t.result = some (.ok (.reassembled payload)) →
          ∀ m ∈ taken, ∀ b, m.responseBlock = .ok b → b.more = true →
            m.payload.size = b.size.bytes) := by
  let template : Message := { type := .confirmable, code := .request .get }
  have hfirst : halfBlock.responseBlock = .ok ⟨0, .s32, true⟩ := rfl
  have hsecond : secondBlock.responseBlock = .ok ⟨1, .s16, false⟩ := rfl
  have hconsecutive : Consecutive [halfBlock, secondBlock] := by
    intro k m hk
    match k with
    | 0 =>
      cases hk
      exact ⟨_, hfirst, fun h => absurd rfl h, fun _ => rfl⟩
    | 1 =>
      cases hk
      exact ⟨_, hsecond, fun _ => ⟨rfl, rfl⟩, fun h => absurd h (by decide)⟩
  have haccepts : Accepts [.ok halfBlock, .ok secondBlock] [halfBlock, secondBlock] :=
    ⟨⟨[], rfl⟩, hconsecutive, fun m rest h => by cases h⟩
  constructor
  · intro h
    have hplace := h template halfBlock [.ok secondBlock] [halfBlock, secondBlock] haccepts 0
      (template.setOption (.block2 17)) secondBlock ⟨1, .s32, false⟩ ⟨1, .s16, false⟩ rfl rfl rfl rfl
    exact absurd hplace (by decide)
  · intro h
    have hfull := h template halfBlock [.ok secondBlock] [halfBlock, secondBlock]
      (halfBlock.payload ++ secondBlock.payload) haccepts rfl halfBlock (List.mem_cons_self ..) _
      hfirst rfl
    exact absurd hfull (by decide)

end Coap.Download
