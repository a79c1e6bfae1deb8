import Coap.Proofs.DownloadSoundness
import Coap.Proofs.HonestServer
import Coap.Proofs.UploadSoundness

/-! The conversation of a transfer with an honest server: from the first request to the response,
every answer leads to the next request or to the whole body. -/
namespace Coap

/-- What is agreed before a transfer starts: a request without block options, a payload and a body
that blocks of any size can carry, and a server that is honest about the body. -/
structure Terms (settings : TransferSettings) (m : Message) (body : ByteArray)
    (server : List Message → Message) : Prop where
  plain1 : m.numbered OptionKind.block1.number = []
  plain2 : m.numbered OptionKind.block2.number = []
  payload_size : m.payload.size ≤ 16 * 2 ^ 20
  body_size : body.size ≤ 16 * 2 ^ 20
  honest : Honest body server
  blocks : settings.blockTransfer = true ∨ AnswersWhole server

/-- The most exchanges that a transfer needs. -/
def exchangeBound (payload body : ByteArray) : Nat := payload.size / 16 + body.size / 16 + 1

/-- What a response is after all requests: the server has assembled the payload of the request, and
the response is the answer to the one concluding request, with the body for its payload. -/
structure Delivered (payload body : ByteArray) (server : List Message → Message)
    (sent : List Message) (response : Response) : Prop where
  assembled : assembled sent = fun i => payload.data[i]?
  answer : ∃ earlier final followUps, sent = earlier ++ final :: followUps ∧ final.Concluding ∧
    (∀ q ∈ earlier ++ followUps, ¬ q.Concluding) ∧
    response.message = { server (earlier ++ [final]) with payload := body }
  length : sent.length ≤ exchangeBound payload body

/-- Takes turns with a server, by at most so many exchanges: all requests, and the result if it gets
that far. -/
def converse (server : List Message → Message) :
    Nat → List Message → Turn Transfer (Except ClientError Response) →
      List Message × Option (Except ClientError Response)
  | _, sent, .finish result => (sent, some result)
  | 0, sent, .ask _ _ => (sent, none)
  | fuel + 1, sent, .ask r t =>
    converse server fuel (sent ++ [r]) (t.resume (.ok (server (sent ++ [r])))).turn

/-- An upload whose requests so far have brought all that precedes its current block. -/
structure Sending (m : Message) (u : Upload) (sent : List Message) : Prop where
  template : u.template = { m with payload := ByteArray.empty }
  payload : u.payload = m.payload
  aligned : u.Aligned
  within : u.offset < u.payload.size
  others : ∀ q ∈ sent, ¬ q.Concluding
  assembled : assembled sent = upTo u.payload u.offset
  length : 16 * sent.length ≤ u.offset

/-- A download that has received the body up to the end of its latest block. -/
structure Fetching (m : Message) (body : ByteArray) (server : List Message → Message) (d : Download)
    (earlier : List Message) (final : Message) (followUps : List Message) : Prop where
  concluding : final.Concluding
  others : ∀ q ∈ earlier ++ followUps, ¬ q.Concluding
  assembled : assembled (earlier ++ final :: followUps) = fun i => m.payload.data[i]?
  success : (server (earlier ++ [final])).code.isSuccess = true
  template : d.template = m.followUp
  number : d.block.number.toNat ≤ Block.maxNumber
  buffer : d.buffer = body.extract 0 d.next.offset
  more : d.block.more = true ↔ d.next.offset < body.size
  within : d.block.offset ≤ body.size
  earlier_length : 16 * earlier.length ≤ m.payload.size
  followUps_length : 16 * followUps.length ≤ d.block.offset

/-- A transfer on its way: it asks with `r`, after the requests `sent` have been answered. -/
inductive Conversing (settings : TransferSettings) (m : Message) (body : ByteArray)
    (server : List Message → Message) : Transfer → Message → List Message → Prop
  | whole : Conversing settings m body server ⟨settings, m.followUp, .whole⟩ m []
  | uploading {u : Upload} {r : Message} {sent : List Message} :
      Sending m u sent → u.request = .ok r →
      Conversing settings m body server ⟨settings, m.followUp, .uploading u⟩ r sent
  | downloading {d : Download} {r final : Message} {earlier followUps : List Message} :
      Fetching m body server d earlier final followUps → d.block.more = true → d.request = .ok r →
      Conversing settings m body server
        ⟨settings, m.followUp, .downloading (server (earlier ++ [final])) d⟩ r
        (earlier ++ final :: followUps)

/-- Where a turn leads after the requests `sent`: on to another request, or home with the response.
-/
inductive Leads (settings : TransferSettings) (m : Message) (body : ByteArray)
    (server : List Message → Message) (sent : List Message) :
    Turn Transfer (Except ClientError Response) → Prop
  | on {t : Transfer} {r : Message} :
      Conversing settings m body server t r sent → Leads settings m body server sent (.ask r t)
  | home {response : Response} :
      Delivered m.payload body server sent response →
      Leads settings m body server sent (.finish (.ok response))

variable {settings : TransferSettings} {m : Message} {body : ByteArray}
  {server : List Message → Message}

/-- The terms do not depend on the token that the request gets when it is sent. -/
theorem Terms.withToken (terms : Terms settings m body server) (token : ByteArray) :
    Terms settings { m with token } body server :=
  ⟨terms.plain1, terms.plain2, terms.payload_size, terms.body_size, terms.honest, terms.blocks⟩

theorem toResponse_of_success {a : Message} (h : a.code.isSuccess = true) :
    ∃ response, a.toResponse = .ok response ∧ response.message = a := by
  unfold Message.toResponse Response.ofMessage
  cases hc : a.code with
  | response status => exact ⟨_, rfl, Response.message_foldl_note a.options _⟩
  | empty =>
    rw [hc] at h
    cases h
  | request method =>
    rw [hc] at h
    cases h

theorem extract_of_size_le {stop : Nat} (h : body.size ≤ stop) : body.extract 0 stop = body := by
  apply ByteArray.ext
  rw [ByteArray.data_extract]
  exact Array.extract_eq_self_of_le h

namespace Fetching

variable {d : Download} {earlier followUps : List Message} {final : Message}

theorem length (h : Fetching m body server d earlier final followUps) :
    (earlier ++ final :: followUps).length ≤ exchangeBound m.payload body := by
  have h1 := h.earlier_length
  have h2 := h.followUps_length
  have h3 := h.within
  rw [List.length_append, List.length_cons]
  unfold exchangeBound
  omega

theorem length_lt (h : Fetching m body server d earlier final followUps)
    (hm : d.block.more = true) :
    (earlier ++ final :: followUps).length < exchangeBound m.payload body := by
  have h1 := h.earlier_length
  have h2 := h.followUps_length
  have hlt := h.more.mp hm
  have hsize := d.block.size.sixteen_le_bytes
  rw [Download.next_offset h.number] at hlt
  rw [List.length_append, List.length_cons]
  unfold exchangeBound
  omega

/-- When nothing is to follow, the buffer is the whole body. -/
theorem delivered (h : Fetching m body server d earlier final followUps)
    (hm : d.block.more = false) :
    ∃ response, ((server (earlier ++ [final])).toResponse.map fun r => r.withPayload d.buffer) =
        .ok response ∧
      Delivered m.payload body server (earlier ++ final :: followUps) response := by
  obtain ⟨response, hr, hmessage⟩ := toResponse_of_success h.success
  have hbuffer : d.buffer = body := by
    have hend : ¬ d.next.offset < body.size := by
      rw [← h.more, hm]
      decide
    rw [h.buffer, extract_of_size_le (Nat.le_of_not_lt hend)]
  refine ⟨response.withPayload d.buffer, by rw [hr]; rfl, h.assembled, ?_, h.length⟩
  refine ⟨earlier, final, followUps, rfl, h.concluding, h.others, ?_⟩
  rw [hbuffer]
  unfold Response.withPayload
  rw [hmessage]

/-- The next request, or the end. -/
theorem leads (terms : Terms settings m body server)
    (h : Fetching m body server d earlier final followUps) (stage : Transfer.Stage)
    (reports : List Progress) :
    Leads settings m body server (earlier ++ final :: followUps)
      ((Transfer.mk settings m.followUp stage).ofDownload (server (earlier ++ [final]))
        { reports, turn := d.turn }).turn := by
  cases hm : d.block.more with
  | false =>
    obtain ⟨response, hr, hdelivered⟩ := h.delivered hm
    unfold Transfer.ofDownload
    simp only [Download.turn_of_complete hm, hr]
    exact .home hdelivered
  | true =>
    obtain ⟨r, hr⟩ := Download.request_exists (h.more.mp hm) terms.body_size
    unfold Transfer.ofDownload
    simp only [Download.turn_of_request hm hr]
    exact .on (.downloading h hm hr)

end Fetching

/-- The first block of a body begins a download. -/
theorem fetching_first {earlier : List Message} {final : Message} {size : BlockSize}
    (hfinal : final.Concluding) (hothers : ∀ q ∈ earlier, ¬ q.Concluding)
    (hstored : assembled (earlier ++ [final]) = fun i => m.payload.data[i]?)
    (hearlier : 16 * earlier.length ≤ m.payload.size)
    (hsuccess : (server (earlier ++ [final])).code.isSuccess = true)
    (hcarries : (server (earlier ++ [final])).Carries body 0 size) :
    ∃ b, (server (earlier ++ [final])).responseBlock = .ok b ∧ ∀ announced,
      Fetching m body server
        { template := m.followUp, announced, buffer := (server (earlier ++ [final])).payload, block := b }
        earlier final [] := by
  obtain ⟨b, hblock, rfl, hzero, hmore⟩ := hcarries.exists_block
  refine ⟨b, hblock, fun announced => ?_⟩
  let d : Download :=
    { template := m.followUp, announced, buffer := (server (earlier ++ [final])).payload, block := b }
  have hnumber : d.block.number.toNat ≤ Block.maxNumber := Message.number_le_of_responseBlock hblock
  have hoffset : d.block.offset = 0 := hzero
  have hnext : d.next.offset = 0 + b.size.bytes := by
    rw [Download.next_offset hnumber, hoffset]
  exact {
    concluding := hfinal
    others := by simpa using hothers
    assembled := hstored
    success := hsuccess
    template := rfl
    number := hnumber
    buffer := by
      rw [hnext]
      exact hcarries.payload
    more := by
      rw [hnext]
      exact hmore
    within := by
      rw [hoffset]
      exact Nat.zero_le _
    earlier_length := hearlier
    followUps_length := Nat.zero_le _ }

/-- The answer to a concluding request is the whole body, or the first block of it. -/
theorem leads_of_concluding (terms : Terms settings m body server) {earlier : List Message}
    {final : Message} (hfinal : final.Concluding) (hothers : ∀ q ∈ earlier, ¬ q.Concluding)
    (hstored : assembled (earlier ++ [final]) = fun i => m.payload.data[i]?)
    (hearlier : 16 * earlier.length ≤ m.payload.size) (stage : Transfer.Stage) :
    Leads settings m body server (earlier ++ [final])
      ((Transfer.mk settings m.followUp stage).received (server (earlier ++ [final]))).turn := by
  obtain ⟨hsuccess, hanswer⟩ := terms.honest.concludes earlier final hfinal
  rcases hanswer with ⟨hnone, hwhole⟩ | ⟨size, hcarries⟩
  · obtain ⟨response, hr, hmessage⟩ := toResponse_of_success hsuccess
    have hturn : ((Transfer.mk settings m.followUp stage).received (server (earlier ++ [final]))).turn =
        .finish (.ok response) := by
      simp [Transfer.received, hnone, hr]
    rw [hturn]
    refine .home ⟨hstored, ⟨earlier, final, [], rfl, hfinal, by simpa using hothers, ?_⟩, ?_⟩
    · rw [hmessage, ← hwhole]
    · rw [List.length_append, List.length_singleton]
      unfold exchangeBound
      omega
  · obtain ⟨b, hblock, hfetching⟩ :=
      fetching_first hfinal hothers hstored hearlier hsuccess hcarries
    obtain ⟨value, hvalue, -⟩ := Message.responseBlock_eq_ok_iff.mp hblock
    -- A server that answers whole has no block to give, so blocks are allowed here.
    have hon : settings.blockTransfer = true := by
      rcases terms.blocks with hon | hnever
      · exact hon
      · rw [hnever] at hvalue
        cases hvalue
    let d : Download :=
      { template := m.followUp
        announced := (server (earlier ++ [final])).size2Value.map UInt32.toNat
        buffer := (server (earlier ++ [final])).payload
        block := b }
    have hturn : ((Transfer.mk settings m.followUp stage).received (server (earlier ++ [final]))).turn =
        ((Transfer.mk settings m.followUp stage).ofDownload (server (earlier ++ [final]))
          { reports := [d.report], turn := d.turn }).turn := by
      simp [Transfer.received, Download.start, hon, hsuccess, hvalue, hblock, d]
    rw [hturn]
    exact (hfetching _).leads terms stage _

namespace Sending

variable {u : Upload} {sent : List Message} {r : Message}

theorem leads (terms : Terms settings m body server) (h : Sending m u sent) (stage : Transfer.Stage)
    (reports : List Progress) :
    Leads settings m body server sent
      ((Transfer.mk settings m.followUp stage).ofUpload { reports, turn := u.turn }).turn := by
  have hsize : u.payload.size ≤ 16 * 2 ^ 20 := by
    rw [h.payload]
    exact terms.payload_size
  obtain ⟨r, hr⟩ := Upload.request_exists h.aligned h.within hsize
  unfold Transfer.ofUpload
  simp only [Upload.turn_of_request hr]
  exact .on (.uploading h hr)

/-- A block that is sent makes the part longer that the server has. -/
theorem assembled_concat (h : Sending m u sent) (hr : u.request = .ok r) (id : UInt16) :
    Coap.assembled (sent ++ [{ r with id }]) = upTo u.payload u.stop := by
  have hplace : r.place = u.offset := Upload.place_of_request h.aligned hr
  have hpart : r.payload = u.payload.extract u.offset u.stop := Upload.request_payload hr
  rw [Coap.assembled_concat, h.assembled]
  exact put_part (Upload.offset_le_stop h.aligned) u.stop_le hplace hpart

theorem next (h : Sending m u sent) (hr : u.request = .ok r) (hm : u.more = true) (id : UInt16)
    (a : Message) : Sending m (u.next a) (sent ++ [{ r with id }]) where
  template := h.template
  payload := h.payload
  aligned := Upload.next_aligned h.aligned hm a
  within := u.more_iff.mp hm
  others := by
    intro q hq
    rcases List.mem_append.mp hq with hq | hq
    · exact h.others q hq
    · rw [List.mem_singleton.mp hq]
      intro hc
      have hsent : r.sentBlock = some u.block := Upload.sentBlock_of_request hr
      have hlast : u.block.more = false := hc.last u.block hsent
      exact Bool.false_ne_true (hlast.symm.trans hm)
  assembled := h.assembled_concat hr id
  length := by
    have hl := h.length
    have h16 := u.size.sixteen_le_bytes
    change 16 * (sent ++ [{ r with id }]).length ≤ u.stop
    rw [Upload.stop_of_more hm, List.length_append, List.length_singleton]
    omega

theorem askedBlock (terms : Terms settings m body server) (h : Sending m u sent)
    (hr : u.request = .ok r) : r.askedBlock = none := by
  apply Upload.askedBlock_of_request _ hr
  rw [h.template]
  exact terms.plain2

/-- Every answer to a block leads on, to the next block or to what the last one brings. -/
theorem leads_of_answer (terms : Terms settings m body server) (h : Sending m u sent)
    (hr : u.request = .ok r) (id : UInt16) (stage : Transfer.Stage) :
    Leads settings m body server (sent ++ [{ r with id }])
      ((Transfer.mk settings m.followUp stage).ofUpload
        (u.resume (.ok (server (sent ++ [{ r with id }]))))).turn := by
  -- The id that a request gets when it is sent is not part of what the server reads.
  have hasked : r.askedBlock = none := h.askedBlock terms hr
  have hsent : r.sentBlock = some u.block := Upload.sentBlock_of_request hr
  cases hm : u.more with
  | true =>
    have hsuccess := terms.honest.accepts sent { r with id } u.block hasked hsent hm
    have hresume : u.resume (.ok (server (sent ++ [{ r with id }]))) =
        { reports := [u.report], turn := (u.next (server (sent ++ [{ r with id }]))).turn } := by
      simp [Upload.resume, hsuccess, hm]
    rw [hresume]
    exact (h.next hr hm id _).leads terms stage _
  | false =>
    have hresume : u.resume (.ok (server (sent ++ [{ r with id }]))) =
        { reports := [u.report], turn := .finish (.ok (server (sent ++ [{ r with id }]))) } := by
      simp [Upload.resume, hm]
    have hfinal : Message.Concluding { r with id } := by
      refine ⟨hasked, fun b hb => ?_⟩
      have hb' : some u.block = some b := hsent.symm.trans hb
      cases hb'
      exact hm
    have hstored : Coap.assembled (sent ++ [{ r with id }]) = fun i => m.payload.data[i]? := by
      rw [h.assembled_concat hr id, Upload.stop_of_not_more hm, upTo_size, h.payload]
    have hlength : 16 * sent.length ≤ m.payload.size := by
      have hl := h.length
      have hw := h.within
      rw [h.payload] at hw
      omega
    rw [hresume]
    exact leads_of_concluding terms hfinal h.others hstored hlength stage

end Sending

namespace Fetching

variable {d : Download} {earlier followUps : List Message} {final r : Message}

/-- A block that starts where the buffer ends makes the buffer longer. -/
theorem next (h : Fetching m body server d earlier final followUps) (hm : d.block.more = true)
    (hr : d.request = .ok r) (id : UInt16) {a : Message} {b : Block} (hblock : a.responseBlock = .ok b)
    (hplace : b.offset = d.next.offset) (hcarries : a.Carries body d.next.offset b.size)
    (hmore : b.more = true ↔ d.next.offset + b.size.bytes < body.size) :
    Fetching m body server (d.accept a b) earlier final (followUps ++ [{ r with id }]) := by
  have hlt := h.more.mp hm
  have hnumber : b.number.toNat ≤ Block.maxNumber := Message.number_le_of_responseBlock hblock
  have hnext : (d.accept a b).next.offset = d.next.offset + b.size.bytes := by
    rw [Download.next_offset hnumber, ← hplace]
    rfl
  have hasked : r.askedBlock = some d.next := Download.askedBlock_of_request hr
  have hnothing : r.payload = ByteArray.empty := by
    rw [Download.payload_of_request hr, h.template]
    rfl
  exact {
    concluding := h.concluding
    others := by
      intro q hq
      rw [← List.append_assoc] at hq
      rcases List.mem_append.mp hq with hq | hq
      · exact h.others q hq
      · rw [List.mem_singleton.mp hq]
        intro hc
        have hnone : r.askedBlock = none := hc.asks
        rw [hasked] at hnone
        cases hnone
    assembled := by
      rw [← List.cons_append, ← List.append_assoc, assembled_concat, h.assembled]
      exact put_nothing hnothing
    success := h.success
    template := h.template
    number := hnumber
    buffer := by
      change d.buffer ++ a.payload = _
      rw [hnext, h.buffer, hcarries.payload, ByteArray.extract_append_extract]
      congr 1
      omega
    more := by
      rw [hnext]
      exact hmore
    within := by
      change b.offset ≤ body.size
      omega
    earlier_length := h.earlier_length
    followUps_length := by
      have hl := h.followUps_length
      have h16 := d.block.size.sixteen_le_bytes
      change 16 * (followUps ++ [{ r with id }]).length ≤ b.offset
      rw [hplace, Download.next_offset h.number, List.length_append, List.length_singleton]
      omega }

/-- Every further block that has been asked for leads on, to the next one or to the whole body. -/
theorem leads_of_answer (terms : Terms settings m body server)
    (h : Fetching m body server d earlier final followUps) (hm : d.block.more = true)
    (hr : d.request = .ok r) (id : UInt16) (stage : Transfer.Stage) :
    Leads settings m body server (earlier ++ final :: followUps ++ [{ r with id }])
      ((Transfer.mk settings m.followUp stage).ofDownload (server (earlier ++ [final]))
        (d.resume (.ok (server (earlier ++ final :: followUps ++ [{ r with id }]))))).turn := by
  have hasked : r.askedBlock = some d.next := Download.askedBlock_of_request hr
  have hlt := h.more.mp hm
  obtain ⟨hsuccess, size, -, hcarries⟩ :=
    terms.honest.serves (earlier ++ final :: followUps) { r with id } d.next hasked hlt
  obtain ⟨b, hblock, rfl, hplace, hmore⟩ := hcarries.exists_block
  have hsize : d.buffer.size = d.next.offset := by
    rw [h.buffer, ByteArray.size_extract]
    omega
  have hturn := Download.resume_of_accepted hsuccess hblock (hplace.trans hsize.symm)
  have hlead := (h.next hm hr id hblock hplace hcarries hmore).leads terms stage []
  rw [← hturn, ← List.cons_append, ← List.append_assoc] at hlead
  exact hlead

end Fetching

/-- The answer to every request leads on. -/
theorem Conversing.leads {t : Transfer} {r : Message} {sent : List Message}
    (terms : Terms settings m body server) (h : Conversing settings m body server t r sent)
    (id : UInt16) :
    Leads settings m body server (sent ++ [{ r with id }])
      (t.resume (.ok (server (sent ++ [{ r with id }])))).turn := by
  cases h with
  | whole =>
    have hplain : m.Concluding := concluding_of_plain terms.plain1 terms.plain2
    have hfinal : Message.Concluding { m with id } := ⟨hplain.asks, hplain.last⟩
    have hstored : assembled [{ m with id }] = fun i => m.payload.data[i]? := by
      have hplace : m.place = 0 := by
        unfold Message.place
        rw [sentBlock_of_numbered_nil terms.plain1]
        rfl
      have hput := put_part (Nat.zero_le _) (Nat.le_refl m.payload.size) hplace
        ByteArray.extract_zero_size.symm
      rw [upTo_zero, upTo_size] at hput
      exact hput
    have hearlier : 16 * ([] : List Message).length ≤ m.payload.size := Nat.zero_le _
    exact leads_of_concluding terms hfinal (by simp) hstored hearlier .whole
  | uploading h hr => exact h.leads_of_answer terms hr id _
  | downloading h hm hr => exact h.leads_of_answer terms hm hr id _

/-- A transfer begins with a first request. -/
theorem leads_of_start (terms : Terms settings m body server) :
    Leads settings m body server [] (Transfer.start settings m m.followUp).turn := by
  by_cases hlarge : settings.blockTransfer = true ∧ settings.blockSize.bytes < m.payload.size
  · let u : Upload :=
      { template := { m with payload := ByteArray.empty }
        payload := m.payload
        size := settings.blockSize
        offset := 0 }
    have hpayload := terms.payload_size
    have hroom : m.payload.size ≤ (Block.maxNumber + 1) * 1024 := by
      unfold Block.maxNumber
      omega
    have hsending : Sending m u [] := {
      template := rfl
      payload := rfl
      aligned := ⟨Nat.dvd_zero _, Nat.zero_le _, hroom⟩
      within := Nat.zero_lt_of_lt hlarge.2
      others := by simp
      assembled := (upTo_zero m.payload).symm
      length := Nat.le_refl 0 }
    have hfits : (m.payload.size - 1) / settings.blockSize.bytes ≤ Block.maxNumber := by
      have h16 := Nat.div_le_div_left settings.blockSize.sixteen_le_bytes (by decide : 0 < 16)
        (a := m.payload.size - 1)
      unfold Block.maxNumber
      omega
    have hturn : (Transfer.start settings m m.followUp).turn =
        ((Transfer.mk settings m.followUp .whole).ofUpload { turn := u.turn }).turn := by
      simp [Transfer.start, Upload.start_of_numbered _ hfits, hlarge, u]
    rw [hturn]
    exact hsending.leads terms .whole []
  · have hturn : (Transfer.start settings m m.followUp).turn =
        .ask m ⟨settings, m.followUp, .whole⟩ := by
      simp only [Transfer.start, Bool.and_eq_true, decide_eq_true_eq, if_neg hlarge]
    rw [hturn]
    exact .on .whole

/-- Every request of a transfer is valid if the whole one is. -/
theorem Conversing.valid {t : Transfer} {r : Message} {sent : List Message} (hm : m.Valid)
    (h : Conversing settings m body server t r sent) : r.Valid := by
  cases h with
  | whole => exact hm
  | uploading h hr => exact Upload.request_valid hm h.payload h.template hr
  | downloading h _ hr =>
    apply Download.request_valid _ hr
    rw [h.template]
    exact hm.followUp

theorem Conversing.length_lt {t : Transfer} {r : Message} {sent : List Message}
    (h : Conversing settings m body server t r sent) : sent.length < exchangeBound m.payload body := by
  cases h with
  | whole => exact Nat.succ_pos _
  | uploading h _ =>
    have hl := h.length
    have hw := h.within
    rw [h.payload] at hw
    unfold exchangeBound
    omega
  | downloading h hm _ => exact h.length_lt hm

/-- Whatever the server chooses, the conversation comes to its end within the bound. -/
theorem converse_of_leads (terms : Terms settings m body server) {sent : List Message}
    {turn : Turn Transfer (Except ClientError Response)} (h : Leads settings m body server sent turn)
    (fuel : Nat) (hfuel : exchangeBound m.payload body ≤ sent.length + fuel) :
    ∃ requests response, converse server fuel sent turn = (requests, some (.ok response)) ∧
      Delivered m.payload body server requests response := by
  induction fuel generalizing sent turn with
  | zero =>
    cases h with
    | on hconv =>
      have hlt := hconv.length_lt
      omega
    | home hdelivered => exact ⟨sent, _, by rw [converse], hdelivered⟩
  | succ fuel ih =>
    cases h with
    | @on t r hconv =>
      have hlead := hconv.leads terms r.id
      have hlength : exchangeBound m.payload body ≤ (sent ++ [r]).length + fuel := by
        rw [List.length_append, List.length_singleton]
        omega
      exact ih hlead hlength
    | home hdelivered => exact ⟨sent, _, by rw [converse], hdelivered⟩

end Coap
