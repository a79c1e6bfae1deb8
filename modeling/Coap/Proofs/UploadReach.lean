import Coap.Proofs.UploadSoundness

/-! How far the block numbers of an upload reach. Its payload is checked against the block size that
it starts with, but the server may ask for smaller blocks later, and then the numbers can run out
before the payload does. -/
namespace Coap.Upload

/-- A run of an upload is over at once, or it takes the course of an upload that starts at the first
byte of a payload whose blocks can be numbered. -/
theorem course_of_start (template : Message) (payload : ByteArray) (size : BlockSize)
    (answers : List Outcome) :
    let t := Stride.run resume { turn := start template payload size } answers
    (Block.maxNumber < (payload.size - 1) / size.bytes ∧
      t = { result := some (.error (.invalidArgument (.tooManyBlocks payload.size size))) }) ∨
    ((payload.size - 1) / size.bytes ≤ Block.maxNumber ∧
      let u : Upload := { template, payload, size, offset := 0 }
      u.Aligned ∧ Course u answers t.requests t.result) := by
  intro t
  by_cases hlarge : Block.maxNumber < (payload.size - 1) / size.bytes
  · have hturn : start template payload size =
        .finish (.error (.invalidArgument (.tooManyBlocks payload.size size))) := if_pos hlarge
    exact Or.inl ⟨hlarge, Stride.run_of_finish hturn answers⟩
  · have hnumbered : (payload.size - 1) / size.bytes ≤ Block.maxNumber := Nat.le_of_not_lt hlarge
    exact Or.inr ⟨hnumbered, aligned_first template hnumbered,
      course_of_turn (start_of_numbered template hnumbered) answers⟩

/-- The first block of a payload always has a number. -/
theorem request_first {u : Upload} (ha : u.Aligned) (h0 : u.offset = 0) : ∃ r, u.request = .ok r := by
  cases hr : u.request with
  | ok r => exact ⟨r, rfl⟩
  | error e =>
    have hn := (request_eq_error hr).2
    have hz : u.block.number.toNat * u.size.bytes = 0 := (number_mul_bytes ha).trans h0
    have hpos := u.size.bytes_pos
    have hzero : u.block.number.toNat = 0 := (Nat.mul_eq_zero.mp hz).resolve_right (by omega)
    omega

/-- The course of an upload ends with the answer to its latest request, or before all of its payload
has been sent. -/
theorem course_unsent {u : Upload} {answers : List Outcome} {requests : List Message}
    {result : Option Outcome} (hc : Course u answers requests result) (ha : u.Aligned)
    (hin : u.offset = 0 ∨ u.offset < u.payload.size) (hr : result.isSome = true) :
    (∃ k, requests.length = k + 1 ∧ answers[k]? = result) ∨
      u.offset + (Message.joined requests).size < u.payload.size := by
  induction hc with
  | @unreachable u answers e hreq =>
    rcases hin with h0 | hlt
    · obtain ⟨r, hok⟩ := request_first ha h0
      rw [hok] at hreq
      cases hreq
    · right
      rw [Message.joined, ByteArray.size_empty]
      exact hlt
  | unanswered => cases hr
  | stopped | completed => exact Or.inl ⟨0, rfl, rfl⟩
  | @continued u q m rest requests result hq hm hs _ ih =>
    have hstop : u.stop < u.payload.size := u.more_iff.mp hm
    have hsize : q.payload.size = u.stop - u.offset := by rw [request_payload hq, extract_size]
    have hle := offset_le_stop ha
    rcases ih (next_aligned ha hm m) (Or.inr hstop) hr with ⟨k, hl, hk⟩ | hlt
    · exact Or.inl ⟨k + 1, by rw [List.length_cons, hl], hk⟩
    · right
      change u.stop + (Message.joined requests).size < u.payload.size at hlt
      rw [Message.joined, ByteArray.size_append, hsize]
      omega

theorem course_nonempty {u : Upload} {answers : List Outcome} {requests : List Message}
    {result : Option Outcome} (hc : Course u answers requests result) (ha : u.Aligned)
    (h0 : u.offset = 0) : requests ≠ [] := by
  obtain ⟨r, hr⟩ := request_first ha h0
  cases hc with
  | unreachable he => rw [hr] at he; cases he
  | unanswered | stopped | completed | continued => exact List.cons_ne_nil _ _

/-- The bytes that the numbers of the smallest blocks reach. -/
def leastReach : Nat := (Block.maxNumber + 1) * BlockSize.s16.bytes

/-- A number that is too large ends an upload only after a reduction of the block size, and only if
the payload is longer than the smallest blocks reach. -/
theorem course_bad_argument {u : Upload} {answers : List Outcome} {requests : List Message}
    {result : Option Outcome} (hc : Course u answers requests result) (ha : u.Aligned)
    (h0 : u.offset = 0) (hfits : (u.payload.size - 1) / u.size.bytes ≤ Block.maxNumber)
    {what : BadArgument} (hres : result = some (.error (.invalidArgument what))) :
    (∃ k, requests.length = k + 1 ∧ answers[k]? = result) ∨
    ∃ (number : UInt32) (small : BlockSize),
      what = .block (.numberOutOfRange number) ∧
      small.IsSmallest (u.size :: acknowledgedSizes (answers.take requests.length)) ∧
      small.bytes < u.size.bytes ∧ number.toNat * small.bytes = (Message.joined requests).size ∧
      Block.maxNumber < number.toNat ∧ leastReach ≤ (Message.joined requests).size ∧
      (Message.joined requests).size < u.payload.size := by
  have hsome : result.isSome = true := by rw [hres]; rfl
  rcases course_unsent hc ha (Or.inl h0) hsome with hk | hunsent
  · exact Or.inl hk
  rcases course_ending hc ha _ hres with ⟨k, hl, hk, -⟩ | ⟨number, small, hsmall, hsent, hmax, hwhat⟩
  · exact Or.inl ⟨k, hl, hk.trans hres.symm⟩
  · rw [h0, Nat.zero_add] at hsent hunsent
    cases hwhat
    have hreach : (Block.maxNumber + 1) * small.bytes ≤ (Message.joined requests).size := by
      rw [← hsent]
      exact Nat.mul_le_mul_right _ hmax
    have hleast : leastReach ≤ (Block.maxNumber + 1) * small.bytes :=
      Nat.mul_le_mul_left _ small.sixteen_le_bytes
    -- The payload fits into the blocks of the start, so that the number is too large for smaller ones.
    have hstart : u.payload.size - 1 < (Block.maxNumber + 1) * u.size.bytes :=
      (Nat.div_lt_iff_lt_mul u.size.bytes_pos).mp (by omega)
    have hlt : (Block.maxNumber + 1) * small.bytes < (Block.maxNumber + 1) * u.size.bytes := by omega
    exact Or.inr ⟨number, small, rfl, hsmall, Nat.lt_of_mul_lt_mul_left hlt, hsent, hmax,
      Nat.le_trans hleast hreach, hunsent⟩

/-- An upload whose requests are all answered with success sends its whole payload, unless a number
is too large. -/
theorem course_of_successes {u : Upload} {answers : List Outcome} {requests : List Message}
    {result : Option Outcome} (hc : Course u answers requests result) (ha : u.Aligned)
    (h0 : u.offset = 0)
    (hall : ∀ k < requests.length, ∃ m, answers[k]? = some (.ok m) ∧ m.code.isSuccess = true) :
    Message.joined requests = u.payload ∨
      ∃ what, result = some (.error (.invalidArgument what)) := by
  cases hres : result with
  | none =>
    -- The latest request has not been answered.
    have hlen : requests.length = answers.length + 1 := course_open hc hres
    obtain ⟨m, hm, -⟩ := hall answers.length (by omega)
    simp at hm
  | some outcome =>
    rcases course_ending hc ha outcome hres with ⟨k, hl, hk, hend⟩ | ⟨number, small, -, -, -, hwhat⟩
    · obtain ⟨m, hm, hsuccess⟩ := hall k (by omega)
      rw [hk] at hm
      cases hm
      rcases hend with hstops | hwhole
      · rw [hstops m rfl] at hsuccess
        cases hsuccess
      · have hnone : u.payload.extract 0 u.offset = ByteArray.empty := by
          rw [h0]
          exact ByteArray.extract_same
        rw [hnone, ByteArray.empty_append] at hwhole
        exact Or.inl hwhole
    · exact Or.inr ⟨_, congrArg some hwhat⟩

/-- When an upload ends with a bad argument that no answer has brought. It refuses a payload at once
if the numbers do not reach for the size that it starts with. It fails after it has sent something if
the server has made the blocks so small that the numbers end before the payload does, which takes a
payload of more than `leastReach` bytes. Nothing else keeps it from sending the whole payload while
it is answered with success. -/
theorem bad_argument_reach (template : Message) (payload : ByteArray) (size : BlockSize)
    (answers : List Outcome) :
    let t := Stride.run resume { turn := start template payload size } answers
    let sent := (Message.joined t.requests).size
    (t.requests = [] ↔ Block.maxNumber < (payload.size - 1) / size.bytes) ∧
    (t.requests = [] →
      t.result = some (.error (.invalidArgument (.tooManyBlocks payload.size size)))) ∧
    (∀ what, t.requests ≠ [] → t.result = some (.error (.invalidArgument what)) →
      (∃ k, t.requests.length = k + 1 ∧ answers[k]? = t.result) ∨
      ∃ (number : UInt32) (small : BlockSize),
        what = .block (.numberOutOfRange number) ∧
        small.IsSmallest (size :: acknowledgedSizes (answers.take t.requests.length)) ∧
        small.bytes < size.bytes ∧ number.toNat * small.bytes = sent ∧
        Block.maxNumber < number.toNat ∧ leastReach ≤ sent ∧ sent < payload.size) ∧
    ((∀ k < t.requests.length, ∃ m, answers[k]? = some (.ok m) ∧ m.code.isSuccess = true) →
      Message.joined t.requests = payload ∨
        ∃ what, t.result = some (.error (.invalidArgument what))) := by
  intro t sent
  rcases course_of_start template payload size answers with ⟨hlarge, ht⟩ | ⟨hfits, ha, hc⟩
  · have hrequests : t.requests = [] := congrArg Trace.requests ht
    have hresult : t.result = some (.error (.invalidArgument (.tooManyBlocks payload.size size))) :=
      congrArg Trace.result ht
    refine ⟨iff_of_true hrequests hlarge, fun _ => hresult, fun _ hne => absurd hrequests hne, ?_⟩
    exact fun _ => Or.inr ⟨_, hresult⟩
  · have hne : t.requests ≠ [] := course_nonempty hc ha rfl
    refine ⟨iff_of_false hne (Nat.not_lt.mpr hfits), fun hnil => absurd hnil hne, ?_, ?_⟩
    · exact fun what _ hres => course_bad_argument hc ha rfl hfits hres
    · exact course_of_successes hc ha rfl

/-- In blocks of the largest size, every place in a payload that passes the check has a number. -/
theorem request_of_largest {u : Upload} (ha : u.Aligned) (hsize : u.size = .s1024)
    (hin : u.offset < u.payload.size) : ∃ r, u.request = .ok r := by
  cases hr : u.request with
  | ok r => exact ⟨r, rfl⟩
  | error e =>
    have hmax := (request_eq_error hr).2
    have hnum : u.block.number.toNat * 1024 = u.offset := by
      rw [← number_mul_bytes ha, hsize]
      rfl
    have hfits := ha.fits
    omega

theorem more_of_largest {u : Upload} (hsize : u.size = .s1024)
    (hleft : u.offset + 1024 < u.payload.size) : u.more = true ∧ u.stop = u.offset + 1024 := by
  have hbytes : u.size.bytes = 1024 := by rw [hsize]; rfl
  have hmore : u.more = true := by
    rw [more_iff]
    unfold stop
    omega
  exact ⟨hmore, by rw [stop_of_more hmore, hbytes]⟩

/-- A success after which more is left leads to the next block. -/
theorem course_of_success {u : Upload} {r m : Message} {rest : List Outcome} {requests : List Message}
    {result : Option Outcome} (hc : Course u (.ok m :: rest) requests result) (hr : u.request = .ok r)
    (hmore : u.more = true) (hsuccess : m.code.isSuccess = true) :
    ∃ later, requests = r :: later ∧ Course (u.next m) rest later result := by
  cases hc with
  | unreachable he =>
    rw [hr] at he
    cases he
  | stopped _ hstops =>
    rw [hstops m rfl] at hsuccess
    cases hsuccess
  | completed _ hlast =>
    rw [hmore] at hlast
    cases hlast
  | continued hq _ _ hrest =>
    rw [hr] at hq
    cases hq
    exact ⟨_, rfl, hrest⟩

/-- Success to blocks of the largest size, without a word on sizes: after `n` answers the upload is
`n` blocks further. -/
theorem course_of_plain_answers {m : Message} (hplain : m.acknowledgedSize = none)
    (hsuccess : m.code.isSuccess = true) (n : Nat) {u : Upload} {rest : List Outcome}
    {requests : List Message} {result : Option Outcome}
    (hc : Course u (List.replicate n (.ok m) ++ rest) requests result) (ha : u.Aligned)
    (hsize : u.size = .s1024) (hleft : u.offset + n * 1024 < u.payload.size) :
    ∃ (v : Upload) (later : List Message), Course v rest later result ∧ v.Aligned ∧
      v.size = .s1024 ∧ v.payload = u.payload ∧ v.offset = u.offset + n * 1024 := by
  induction n generalizing u requests with
  | zero =>
    exact ⟨u, requests, by simpa using hc, ha, hsize, rfl, by omega⟩
  | succ n ih =>
    obtain ⟨hmore, hstop⟩ := more_of_largest hsize (by omega)
    obtain ⟨r, hr⟩ := request_of_largest ha hsize (by omega)
    rw [List.replicate_succ, List.cons_append] at hc
    obtain ⟨later, -, hrest⟩ := course_of_success hc hr hmore hsuccess
    have hnext : (u.next m).size = .s1024 := by
      change u.nextSize m = .s1024
      rw [nextSize_eq, hplain]
      exact hsize
    have hoffset : (u.next m).offset = u.offset + 1024 := hstop
    have hpayload : (u.next m).payload = u.payload := rfl
    obtain ⟨v, later, hv, hva, hvsize, hvp, hvo⟩ :=
      ih hrest (next_aligned ha hmore m) hnext (by rw [hoffset, hpayload]; omega)
    refine ⟨v, later, hv, hva, hvsize, hvp.trans hpayload, ?_⟩
    rw [hvo, hoffset]
    omega

/-- Success, with nothing said about the size of blocks. -/
def plainContinue : Message := { type := .acknowledgement, code := .response .continue }

/-- Success, with the wish for the smallest blocks. -/
def smallContinue : Message := { plainContinue with options := [.block1 0] }

/-- A wish for the smallest blocks leaves no number for a block that starts where they reach. -/
theorem course_of_small_answer {u : Upload} {requests : List Message} {result : Option Outcome}
    (hc : Course u [.ok smallContinue] requests result) (ha : u.Aligned) (hsize : u.size = .s1024)
    (hplace : u.offset + 1024 = leastReach) (hleft : leastReach < u.payload.size) :
    ∃ number, result = some (.error (.invalidArgument (.block (.numberOutOfRange number)))) := by
  obtain ⟨hmore, hstop⟩ := more_of_largest hsize (by omega)
  obtain ⟨r, hr⟩ := request_of_largest ha hsize (by omega)
  obtain ⟨later, -, hrest⟩ := course_of_success hc hr hmore rfl
  have hsmall : (u.next smallContinue).size = .s16 := by
    change u.nextSize smallContinue = .s16
    rw [nextSize_eq, hsize]
    rfl
  have hnum := number_mul_bytes (next_aligned ha hmore smallContinue)
  change _ = u.stop at hnum
  rw [hsmall, hstop, hplace] at hnum
  have hmax : (u.next smallContinue).block.number.toNat = Block.maxNumber + 1 :=
    Nat.eq_of_mul_eq_mul_right BlockSize.s16.bytes_pos hnum
  cases hrest with
  | unreachable he =>
    obtain ⟨rfl, -⟩ := request_eq_error he
    exact ⟨_, rfl⟩
  | unanswered hok =>
    obtain ⟨value, hencode, -⟩ := request_eq_ok hok
    have hle := Block.number_le_of_encode hencode
    omega

/-- A bad argument can come after something has been sent: one byte more than the smallest blocks
reach passes the check at the start, and then the server asks for these blocks just before the last
byte. -/
theorem bad_argument_after_requests :
    ¬ ∀ (template : Message) (payload : ByteArray) (size : BlockSize) (answers : List Outcome),
      template.validate = .ok () →
      (∀ answer ∈ answers, ∀ what, answer ≠ .error (.invalidArgument what)) →
      let t := Stride.run resume { turn := start template payload size } answers
      ∀ what, t.result = some (.error (.invalidArgument what)) → t.requests = [] := by
  intro h
  let template : Message := { type := .confirmable, code := .request .put }
  -- Only the size of the payload matters, and its bytes are never looked at.
  obtain ⟨payload, hpayload⟩ : ∃ payload : ByteArray, payload.size = leastReach + 1 :=
    ⟨⟨Array.replicate (leastReach + 1) 1⟩, Array.size_replicate⟩
  obtain ⟨n, hn⟩ : ∃ n, (n + 1) * 1024 = leastReach := ⟨16383, by decide⟩
  let answers : List Outcome := List.replicate n (.ok plainContinue) ++ [.ok smallContinue]
  have hanswers : ∀ answer ∈ answers, ∀ what, answer ≠ .error (.invalidArgument what) := by
    intro answer hmem what
    rcases List.mem_append.mp hmem with hmem | hmem
    · rw [List.eq_of_mem_replicate hmem]
      exact nofun
    · rw [List.mem_singleton.mp hmem]
      exact nofun
  rcases course_of_start template payload .s1024 answers with ⟨hlarge, -⟩ | ⟨-, ha, hc⟩
  · have hbytes : BlockSize.s1024.bytes = 1024 := rfl
    have hreach : leastReach = 16777216 := by decide
    unfold Block.maxNumber at hlarge
    rw [hpayload, hbytes] at hlarge
    omega
  · have hleft : 0 + n * 1024 < payload.size := by omega
    obtain ⟨v, later, hv, hva, hvsize, hvp, hvo⟩ :=
      course_of_plain_answers rfl rfl n hc ha rfl hleft
    have hplace : v.offset + 1024 = leastReach := by
      rw [hvo, ← hn, Nat.zero_add, Nat.succ_mul]
    have hlonger : leastReach < v.payload.size := by
      rw [hvp]
      exact Nat.lt_of_lt_of_eq (Nat.lt_succ_self _) hpayload.symm
    obtain ⟨number, hresult⟩ := course_of_small_answer hv hva hvsize hplace hlonger
    exact course_nonempty hc ha rfl (h template payload .s1024 answers rfl hanswers _ hresult)

end Coap.Upload
