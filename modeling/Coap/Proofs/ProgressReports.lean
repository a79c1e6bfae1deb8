import Coap.Proofs.DownloadIntake
import Coap.Proofs.UploadReach

/-! What a transfer reports on its way: one report for each block that has got through, with the
bytes transferred up to it, and a last one exactly at the end of the payload. -/
namespace Coap

namespace Upload

/-- The report on the block in the request `r`, with which `sent` bytes of the payload have gone up. -/
structure ReportOn (payload : ByteArray) (sent : Nat) (r : Message) (p : Progress) : Prop where
  direction : p.direction = .upload
  block : ∃ value, r.numbered OptionKind.block1.number = [.block1 value] ∧
    Block.decode value = .ok { number := p.number, size := p.size, more := !p.last }
  bytes : p.bytes = sent
  within : p.bytes ≤ payload.size
  total : p.total = some payload.size
  count : ∃ blocks, p.totalBlocks = some blocks ∧ p.number.toNat < blocks
  last : p.last = true ↔ p.bytes = payload.size

/-- The reports of an upload of which `before` bytes had been sent already: one on each request that
has been answered, and each on more bytes than the one before. -/
structure Reported (payload : ByteArray) (before : Nat) (answers : List Outcome)
    (requests : List Message) (reports : List Progress) : Prop where
  answered : ∀ k, k < reports.length ↔ k < requests.length ∧ ∃ m, answers[k]? = some (.ok m)
  each : ∀ k r p, requests[k]? = some r → reports[k]? = some p →
    ReportOn payload (before + (Message.joined (requests.take (k + 1))).size) r p
  grows : 0 < payload.size →
    reports.Pairwise (fun p q => p.bytes < q.bytes) ∧ ∀ p ∈ reports, before < p.bytes

/-- The number of the current block is below the count of blocks of its size. -/
theorem number_lt_blocks {u : Upload} (ha : u.Aligned) (hin : u.offset = 0 ∨ u.offset < u.payload.size) :
    ∃ blocks, u.report.totalBlocks = some blocks ∧ u.block.number.toNat < blocks := by
  refine ⟨max 1 ((u.payload.size + u.size.bytes - 1) / u.size.bytes), rfl, ?_⟩
  have hpos := u.size.bytes_pos
  rcases hin with h0 | hlt
  · have hzero : u.block.number.toNat = 0 := by rw [number_eq ha, h0, Nat.zero_div]
    omega
  · -- The block starts before the payload ends, so that the blocks before it do not make it up.
    have hplace := number_mul_bytes ha
    have hcount : u.block.number.toNat < (u.payload.size + u.size.bytes - 1) / u.size.bytes := by
      apply Nat.lt_of_succ_le
      apply (Nat.le_div_iff_mul_le hpos).mpr
      calc
        (u.block.number.toNat + 1) * u.size.bytes = u.offset + u.size.bytes := by
          rw [Nat.succ_mul, hplace]
        _ ≤ u.payload.size + u.size.bytes - 1 := by omega
    exact Nat.lt_of_lt_of_le hcount (Nat.le_max_right ..)

theorem report_on_request {u : Upload} {r : Message} (ha : u.Aligned)
    (hin : u.offset = 0 ∨ u.offset < u.payload.size) (hr : u.request = .ok r) :
    ReportOn u.payload (u.offset + r.payload.size) r u.report where
  direction := rfl
  block := by
    obtain ⟨value, hvalue, hdecode⟩ := request_numbered hr
    refine ⟨value, hvalue, ?_⟩
    rw [hdecode]
    simp [report, block]
  bytes := by
    have hle := offset_le_stop ha
    change u.stop = _
    rw [request_payload hr, extract_size]
    omega
  within := u.stop_le
  total := rfl
  count := number_lt_blocks ha hin
  last := by
    change (!u.more) = true ↔ u.stop = u.payload.size
    have hle := u.stop_le
    rw [Bool.not_eq_true', ← Bool.not_eq_true, u.more_iff]
    omega

theorem reported_nil {payload : ByteArray} {before : Nat} {answers : List Outcome}
    {requests : List Message} (h : ∀ k < requests.length, ∀ m, answers[k]? ≠ some (.ok m)) :
    Reported payload before answers requests [] where
  answered k := by
    refine iff_of_false (Nat.not_lt_zero k) ?_
    rintro ⟨hk, m, hm⟩
    exact h k hk m hm
  each k r p _ hp := by cases hp
  grows _ := ⟨List.Pairwise.nil, fun p hp => by cases hp⟩

theorem reported_none (payload : ByteArray) (before : Nat) (answers : List Outcome) :
    Reported payload before answers [] [] :=
  reported_nil fun k hk => absurd hk (Nat.not_lt_zero k)

/-- One more block before all others. -/
theorem reported_cons {u : Upload} {r : Message} (ha : u.Aligned)
    (hin : u.offset = 0 ∨ u.offset < u.payload.size) (hr : u.request = .ok r) (m : Message)
    {rest : List Outcome} {requests : List Message} {later : List Progress}
    (h : Reported u.payload u.stop rest requests later) :
    Reported u.payload u.offset (.ok m :: rest) (r :: requests) (u.report :: later) := by
  have hsize : r.payload.size = u.stop - u.offset := by rw [request_payload hr, extract_size]
  have hle := offset_le_stop ha
  refine ⟨?_, ?_, ?_⟩
  · intro k
    cases k with
    | zero => simp
    | succ k => simpa using h.answered k
  · intro k q p hq hp
    cases k with
    | zero =>
      cases hq
      cases hp
      have hreport := report_on_request ha hin hr
      rwa [List.take_succ_cons, List.take_zero, Message.joined, Message.joined,
        ByteArray.append_empty]
    | succ k =>
      have hreport := h.each k q p hq hp
      have hsent : u.offset + (Message.joined ((r :: requests).take (k + 1 + 1))).size =
          u.stop + (Message.joined (requests.take (k + 1))).size :=
        calc
          _ = u.offset + (r.payload.size + (Message.joined (requests.take (k + 1))).size) := by
            rw [List.take_succ_cons, Message.joined, ByteArray.size_append]
          _ = _ := by omega
      rwa [hsent]
  · intro hpos
    obtain ⟨hpairs, hbefore⟩ := h.grows hpos
    have hgrows : u.offset < u.stop := by
      have hbytes := u.size.bytes_pos
      unfold stop
      omega
    refine ⟨List.pairwise_cons.mpr ⟨hbefore, hpairs⟩, ?_⟩
    intro p hp
    rcases List.mem_cons.mp hp with rfl | hp
    · exact hgrows
    · exact Nat.lt_trans hgrows (hbefore p hp)

/-- A report after each answer to a request, whatever the upload makes of the answer. -/
theorem course_reports {u : Upload} {answers : List Outcome} {requests : List Message}
    {result : Option Outcome} (hc : Course u answers requests result) (ha : u.Aligned)
    (hin : u.offset = 0 ∨ u.offset < u.payload.size) {s : Stride Upload Outcome}
    (hs : s.turn = u.turn) :
    ∃ later, (s.run resume answers).reports = s.reports ++ later ∧
      Reported u.payload u.offset answers requests later := by
  -- Along the answers: all bytes before the offset have gone up.
  induction hc generalizing s with
  | unreachable hr =>
    rw [Stride.run_of_finish (hs.trans (turn_of_error hr))]
    exact ⟨[], (List.append_nil _).symm, reported_none ..⟩
  | unanswered hr =>
    rw [Stride.run_of_ask_nil (hs.trans (turn_of_request hr))]
    refine ⟨[], (List.append_nil _).symm, reported_nil fun k _ m hm => ?_⟩
    cases hm
  | @stopped u r answer rest hr hstops =>
    rw [Stride.run_of_ask_cons (hs.trans (turn_of_request hr))]
    -- A failed exchange is not reported, an answer that ends the upload is.
    cases answer with
    | error e =>
      have hturn : (u.resume (.error e)).turn = .finish (.error e) := rfl
      rw [Stride.run_of_finish hturn]
      refine ⟨[], rfl, reported_nil fun k hk m hm => ?_⟩
      obtain rfl : k = 0 := by simpa using hk
      cases hm
    | ok m =>
      have hturn : (u.resume (.ok m)).turn = .finish (.ok m) := by
        rw [resume_turn, if_neg (by simp [hstops m rfl])]
      rw [Stride.run_of_finish hturn]
      exact ⟨[u.report], rfl, reported_cons ha hin hr m (reported_none ..)⟩
  | @completed u r m rest hr hmore =>
    have hturn : (u.resume (.ok m)).turn = .finish (.ok m) := by
      rw [resume_turn, if_neg (by simp [hmore])]
    rw [Stride.run_of_ask_cons (hs.trans (turn_of_request hr)), Stride.run_of_finish hturn]
    exact ⟨[u.report], rfl, reported_cons ha hin hr m (reported_none ..)⟩
  | @continued u r m rest requests result hr hmore hcode _ ih =>
    have hturn : (u.resume (.ok m)).turn = (u.next m).turn := by
      rw [resume_turn, if_pos ⟨hcode, hmore⟩]
    obtain ⟨later, hlater, hreported⟩ :=
      ih (next_aligned ha hmore m) (Or.inr (u.more_iff.mp hmore)) hturn
    rw [Stride.run_of_ask_cons (hs.trans (turn_of_request hr))]
    dsimp only
    rw [hlater]
    exact ⟨u.report :: later, rfl, reported_cons ha hin hr m hreported⟩

theorem reported_of_start (template : Message) (payload : ByteArray) (size : BlockSize)
    (answers : List Outcome) :
    let t := Stride.run resume { turn := start template payload size } answers
    Reported payload 0 answers t.requests t.reports := by
  intro t
  rcases course_of_start template payload size answers with ⟨-, ht⟩ | ⟨hfits, ha, hc⟩
  · have hempty : t = _ := ht
    rw [hempty]
    exact reported_none ..
  · have hturn : start template payload size = turn { template, payload, size, offset := 0 } :=
      start_of_numbered template hfits
    obtain ⟨later, hlater, hreported⟩ := course_reports hc ha (Or.inl rfl)
      (s := { turn := start template payload size }) hturn
    have hreports : t.reports = later := hlater
    rw [hreports]
    exact hreported

end Upload

namespace Download

/-- The report on the latest message tells the size of the payload so far, and whether it is whole.
-/
theorem report_on_last {announced : Option Nat} {taken : List Message} {reports : List Progress}
    (h : Reports announced taken reports) {k : Nat} {p : Progress} (hp : reports[k]? = some p)
    (hk : k + 1 = taken.length) :
    p.bytes = (Message.joined taken).size ∧
      (Complete taken → p.last = true ∧ p.total = some (Message.joined taken).size) := by
  have hlt : k < taken.length := by omega
  obtain ⟨b, hb, hat⟩ := h.each k taken[k] (List.getElem?_eq_getElem hlt)
  rw [List.take_of_length_le (by omega), hp] at hat
  cases hat
  refine ⟨rfl, ?_⟩
  rintro ⟨earlier, m, b', rfl, hb', hmore⟩
  have hlast : k = earlier.length := by simpa using hk
  have hsame : (earlier ++ [m])[k] = m := by simp [hlast]
  rw [hsame, hb'] at hb
  cases hb
  simp [reportOn, hmore]

/-- Only a message that completes the payload is reported as the last one. -/
theorem complete_of_report {announced : Option Nat} {taken : List Message} {reports : List Progress}
    (hc : Consecutive taken) (h : Reports announced taken reports) {k : Nat} {p : Progress}
    (hp : reports[k]? = some p) (hlast : p.last = true) : Complete taken ∧ k + 1 = taken.length := by
  have hlt : k < taken.length := by
    rw [← h.length]
    exact (List.getElem?_eq_some_iff.mp hp).1
  have hm : taken[k]? = some taken[k] := List.getElem?_eq_getElem hlt
  obtain ⟨b, hb, hat⟩ := h.each k taken[k] hm
  rw [hp] at hat
  cases hat
  have hmore : b.more = false := by simpa [reportOn] using hlast
  obtain ⟨b', hb', -, hnext⟩ := hc k taken[k] hm
  rw [hb] at hb'
  cases hb'
  -- A message with another one after it has announced more.
  have hend : k + 1 = taken.length := by
    apply Nat.le_antisymm hlt (Nat.le_of_not_lt ?_)
    intro hbefore
    have htrue : b.more = true := hnext hbefore
    rw [hmore] at htrue
    cases htrue
  refine ⟨⟨taken.take k, taken[k], b, ?_, hb, hmore⟩, hend⟩
  rw [List.take_append_getElem, List.take_of_length_le (Nat.le_of_eq hend.symm)]

/-- The reports on a complete payload end with the one on its last block. -/
theorem reports_of_complete {announced : Option Nat} {taken : List Message} {reports : List Progress}
    (hc : Consecutive taken) (h : Reports announced taken reports) (hcomplete : Complete taken) :
    ∃ earlier p, reports = earlier ++ [p] ∧ p.last = true ∧ (∀ q ∈ earlier, q.last = false) ∧
      p.bytes = (Message.joined taken).size ∧ p.total = some (Message.joined taken).size := by
  have hlength := h.length
  rcases List.eq_nil_or_concat reports with rfl | ⟨earlier, p, hsplit⟩
  · obtain ⟨before, m, b, rfl, -⟩ := hcomplete
    simp at hlength
  · rw [List.concat_eq_append] at hsplit
    subst hsplit
    rw [List.length_append, List.length_singleton] at hlength
    obtain ⟨hbytes, hwhole⟩ := report_on_last h (List.getElem?_concat_length ..) hlength
    obtain ⟨hlast, htotal⟩ := hwhole hcomplete
    refine ⟨earlier, p, rfl, hlast, ?_, hbytes, htotal⟩
    intro q hq
    obtain ⟨j, hj, hat⟩ := List.mem_iff_getElem.mp hq
    cases hqlast : q.last with
    | false => rfl
    | true =>
      have hq' : (earlier ++ [p])[j]? = some q := by
        rw [List.getElem?_append_left hj, List.getElem?_eq_getElem hj, hat]
      have hend := (complete_of_report hc h hq' hqlast).2
      omega

/-- The reports of a download that begins with `first`: one on each block that it takes in, with the
bytes received up to it and the size that `first` announced; the last block is reported as such exactly
if the payload is returned, and then it is reported last, with the size of that. -/
structure Reported (first : Message) (answers : List Outcome)
    (t : Trace (Except ClientError Assembly)) : Prop where
  taken : ∃ taken, Accepts (.ok first :: answers.take t.requests.length) taken ∧
    Reports (first.size2Value.map UInt32.toNat) taken t.reports
  last : (∃ p ∈ t.reports, p.last = true) ↔ ∃ payload, t.result = some (.ok (.reassembled payload))
  whole : ∀ payload, t.result = some (.ok (.reassembled payload)) →
    ∃ earlier p, t.reports = earlier ++ [p] ∧ p.last = true ∧ (∀ q ∈ earlier, q.last = false) ∧
      p.bytes = payload.size ∧ p.total = some payload.size

theorem reported_of_start (template first : Message) (answers : List Outcome) :
    Reported first answers ((start template first).run resume answers) := by
  obtain ⟨taken, haccepts, hwhole, hreports⟩ := intake_of_start template first answers
  have hc := haccepts.consecutive
  refine ⟨⟨taken, haccepts, hreports⟩, ⟨?_, ?_⟩, ?_⟩
  · rintro ⟨p, hp, hlast⟩
    obtain ⟨k, hk⟩ := List.mem_iff_getElem?.mp hp
    have hcomplete := (complete_of_report hc hreports hk hlast).1
    exact ⟨_, (hwhole _).mpr ⟨rfl, hcomplete⟩⟩
  · rintro ⟨payload, hresult⟩
    obtain ⟨earlier, p, hsplit, hlast, -⟩ :=
      reports_of_complete hc hreports ((hwhole payload).mp hresult).2
    refine ⟨p, ?_, hlast⟩
    rw [hsplit]
    exact List.mem_concat_self
  · intro payload hresult
    obtain ⟨rfl, hcomplete⟩ := (hwhole payload).mp hresult
    exact reports_of_complete hc hreports hcomplete

end Download

end Coap
