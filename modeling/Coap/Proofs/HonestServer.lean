import Coap.Proofs.RequestValidity

/-! A server that plays by the rules of block-wise transfer, and the conversation of a transfer with
it. Whatever block sizes the server chooses, it gets the payload of the request, and the transfer
gets the body of the response. -/
namespace Coap

/-- The block of the request payload that a message carries. -/
def Message.sentBlock (m : Message) : Option Block :=
  m.block1Value.bind fun value => (Block.decode value).toOption

/-- The block of the response body that a message asks for. -/
def Message.askedBlock (m : Message) : Option Block :=
  m.block2Value.bind fun value => (Block.decode value).toOption

/-- The place of a message's payload in the whole. -/
def Message.place (m : Message) : Nat := (m.sentBlock.map Block.offset).getD 0

/-- What a server has after one more request: it puts the payload at its place. -/
def put (store : Nat → Option UInt8) (m : Message) : Nat → Option UInt8 := fun i =>
  if m.place ≤ i ∧ i < m.place + m.payload.size then m.payload.data[i - m.place]? else store i

/-- What a server assembles from requests. -/
def assembled (requests : List Message) : Nat → Option UInt8 := requests.foldl put fun _ => none

/-- A request that leaves nothing more to send: the last block of a payload, or a payload sent
whole. -/
structure Message.Concluding (m : Message) : Prop where
  asks : m.askedBlock = none
  last : ∀ b, m.sentBlock = some b → b.more = false

/-- A message with the block of the given size that starts at the given place of a body. -/
structure Message.Carries (m : Message) (body : ByteArray) (place : Nat) (size : BlockSize) : Prop where
  block : ∃ number more, m.responseBlock = .ok { number, size, more } ∧
    number.toNat * size.bytes = place ∧ (more = true ↔ place + size.bytes < body.size)
  payload : m.payload = body.extract place (place + size.bytes)

theorem Message.Carries.exists_block {m : Message} {body : ByteArray} {place : Nat} {size : BlockSize}
    (h : m.Carries body place size) :
    ∃ b, m.responseBlock = .ok b ∧ b.size = size ∧ b.offset = place ∧
      (b.more = true ↔ place + size.bytes < body.size) := by
  obtain ⟨number, more, hblock, hplace, hmore⟩ := h.block
  exact ⟨{ number, size, more }, hblock, rfl, hplace, hmore⟩

/-- A server that is given the requests so far and answers the latest one. It accepts every block of
a payload, with any block size or none in its answer. Then it answers with the whole body or the
first block of it, in any size, and with every further block that is asked for, in the size asked
for or a smaller one. -/
structure Honest (body : ByteArray) (server : List Message → Message) : Prop where
  accepts : ∀ earlier r b, r.askedBlock = none → r.sentBlock = some b → b.more = true →
    (server (earlier ++ [r])).code.isSuccess = true
  concludes : ∀ earlier r, r.Concluding →
    (server (earlier ++ [r])).code.isSuccess = true ∧
    ((server (earlier ++ [r])).block2Value = none ∧ (server (earlier ++ [r])).payload = body ∨
      ∃ size, (server (earlier ++ [r])).Carries body 0 size)
  serves : ∀ earlier r b, r.askedBlock = some b → b.offset < body.size →
    (server (earlier ++ [r])).code.isSuccess = true ∧
    ∃ size, size.bytes ≤ b.size.bytes ∧ (server (earlier ++ [r])).Carries body b.offset size

/-- A server that never answers with blocks. -/
def AnswersWhole (server : List Message → Message) : Prop :=
  ∀ requests, (server requests).block2Value = none

/-! What the server assembles. -/

/-- The first bytes of a payload, each at its place. -/
def upTo (payload : ByteArray) (stop : Nat) : Nat → Option UInt8 := fun i =>
  if i < stop then payload.data[i]? else none

theorem upTo_zero (payload : ByteArray) : upTo payload 0 = fun _ => none := by
  funext i
  exact if_neg (Nat.not_lt_zero i)

theorem upTo_size (payload : ByteArray) : upTo payload payload.size = fun i => payload.data[i]? := by
  funext i
  unfold upTo
  split
  · rfl
  · next h =>
    exact (Array.getElem?_eq_none (Nat.le_of_not_lt h)).symm

theorem assembled_concat (requests : List Message) (m : Message) :
    assembled (requests ++ [m]) = put (assembled requests) m := by
  unfold assembled
  rw [List.foldl_append, List.foldl_cons, List.foldl_nil]

/-- A part that starts where the store ends makes the store longer. -/
theorem put_part {payload : ByteArray} {start stop : Nat} {m : Message} (hle : start ≤ stop)
    (hsize : stop ≤ payload.size) (hplace : m.place = start)
    (hpart : m.payload = payload.extract start stop) :
    put (upTo payload start) m = upTo payload stop := by
  have hlen : m.payload.size = stop - start := by
    rw [hpart, ByteArray.size_extract]
    omega
  funext i
  unfold put upTo
  rw [hplace, hlen, Nat.add_sub_cancel' hle]
  by_cases hin : start ≤ i ∧ i < stop
  · have hget : (payload.extract start stop).data[i - start]? = payload.data[i]? := by
      rw [ByteArray.data_extract, Array.getElem?_extract]
      have hsize' : stop ≤ payload.data.size := hsize
      rw [if_pos (by omega), Nat.add_sub_cancel' hin.1]
    rw [if_pos hin, if_pos hin.2, hpart, hget]
  · rw [if_neg hin]
    by_cases hlt : i < start
    · rw [if_pos hlt, if_pos (by omega)]
    · rw [if_neg hlt, if_neg (by omega)]

theorem put_nothing {store : Nat → Option UInt8} {m : Message} (h : m.payload = ByteArray.empty) :
    put store m = store := by
  funext i
  unfold put
  rw [h]
  exact if_neg (by simp)

/-! What the server reads from the requests of a transfer. -/

theorem sentBlock_of_numbered {m : Message} {value : UInt32} {b : Block}
    (hv : m.numbered OptionKind.block1.number = [.block1 value]) (hd : Block.decode value = .ok b) :
    m.sentBlock = some b := by
  unfold Message.sentBlock
  rw [Message.block1Value_of_numbered hv, Option.bind_some, hd]
  rfl

theorem sentBlock_of_numbered_nil {m : Message} (h : m.numbered OptionKind.block1.number = []) :
    m.sentBlock = none := by
  unfold Message.sentBlock
  rw [Message.block1Value_of_numbered_nil h]
  rfl

theorem askedBlock_of_numbered {m : Message} {value : UInt32} {b : Block}
    (hv : m.numbered OptionKind.block2.number = [.block2 value]) (hd : Block.decode value = .ok b) :
    m.askedBlock = some b := by
  unfold Message.askedBlock
  rw [Message.block2Value_of_numbered hv, Option.bind_some, hd]
  rfl

theorem askedBlock_of_numbered_nil {m : Message} (h : m.numbered OptionKind.block2.number = []) :
    m.askedBlock = none := by
  unfold Message.askedBlock
  rw [Message.block2Value_of_numbered_nil h]
  rfl

/-- A request without block options is sent whole. -/
theorem concluding_of_plain {m : Message} (h1 : m.numbered OptionKind.block1.number = [])
    (h2 : m.numbered OptionKind.block2.number = []) : m.Concluding where
  asks := askedBlock_of_numbered_nil h2
  last := by
    intro b hb
    rw [sentBlock_of_numbered_nil h1] at hb
    cases hb

namespace Upload

variable {u : Upload} {r : Message}

theorem sentBlock_of_request (h : u.request = .ok r) : r.sentBlock = some u.block := by
  obtain ⟨value, hv, hd⟩ := request_numbered h
  exact sentBlock_of_numbered hv hd

theorem place_of_request (ha : u.Aligned) (h : u.request = .ok r) : r.place = u.offset := by
  unfold Message.place
  rw [sentBlock_of_request h]
  exact number_mul_bytes ha

/-- Of the options that a server reads, a block of a payload has only Block1. -/
theorem askedBlock_of_request (ht : u.template.numbered OptionKind.block2.number = [])
    (h : u.request = .ok r) : r.askedBlock = none := by
  apply askedBlock_of_numbered_nil
  obtain ⟨value, -, rfl⟩ := request_eq_ok h
  dsimp only
  split
  · rw [Message.numbered_setOption_ne _ (.size1 _) _
        (show OptionKind.size1.number ≠ OptionKind.block2.number by decide),
      Message.numbered_setOption_ne _ (.block1 value) _
        (show OptionKind.block1.number ≠ OptionKind.block2.number by decide)]
    exact ht
  · rw [Message.numbered_setOption_ne _ (.block1 value) _
      (show OptionKind.block1.number ≠ OptionKind.block2.number by decide)]
    exact ht

/-- With a payload of at most 16 * 2^20 bytes there is a number for every block. -/
theorem request_exists (ha : u.Aligned) (hlt : u.offset < u.payload.size)
    (hsize : u.payload.size ≤ 16 * 2 ^ 20) : ∃ r, u.request = .ok r := by
  have hnumber : u.block.number.toNat ≤ Block.maxNumber := by
    have hn := number_mul_bytes ha
    have h16 := Nat.mul_le_mul_left u.block.number.toNat u.size.sixteen_le_bytes
    unfold Block.maxNumber
    omega
  cases hr : u.request with
  | ok r => exact ⟨r, rfl⟩
  | error e =>
    obtain ⟨-, hover⟩ := request_eq_error hr
    exact absurd hnumber (Nat.not_le_of_lt hover)

end Upload

namespace Download

variable {d : Download} {r : Message}

theorem askedBlock_of_request (h : d.request = .ok r) : r.askedBlock = some d.next := by
  obtain ⟨value, he, rfl⟩ := request_eq_ok h
  exact askedBlock_of_numbered (Message.numbered_setOption_self _ (.block2 value))
    (Block.decode_of_encode he)

theorem payload_of_request (h : d.request = .ok r) : r.payload = d.template.payload := by
  obtain ⟨value, -, rfl⟩ := request_eq_ok h
  rfl

theorem next_offset (hb : d.block.number.toNat ≤ Block.maxNumber) :
    d.next.offset = d.block.offset + d.block.size.bytes := by
  change d.next.number.toNat * d.block.size.bytes = _
  rw [next_number hb, Nat.succ_mul]
  rfl

/-- With a body of at most 16 * 2^20 bytes there is a number for every block. -/
theorem request_exists {size : Nat} (hlt : d.next.offset < size) (hsize : size ≤ 16 * 2 ^ 20) :
    ∃ r, d.request = .ok r := by
  have hnumber : d.next.number.toNat ≤ Block.maxNumber := by
    have h16 := Nat.mul_le_mul_left d.next.number.toNat d.next.size.sixteen_le_bytes
    change d.next.number.toNat * d.next.size.bytes < size at hlt
    unfold Block.maxNumber
    omega
  cases hr : d.request with
  | ok r => exact ⟨r, rfl⟩
  | error e =>
    obtain ⟨-, hover⟩ := request_eq_error hr
    exact absurd hnumber (Nat.not_le_of_lt hover)

end Download

/-! A server that is honest about any body. -/

/-- The answer to a request with one block of a body. -/
def blockAnswer (r : Message) (body : ByteArray) (number : UInt32) (size : BlockSize) : Message :=
  let b : Block := { number, size, more := number.toNat * size.bytes + size.bytes < body.size }
  { type := .acknowledgement
    code := .response .content
    id := r.id
    token := r.token
    options := [.block2 (UInt32.ofNat b.value)]
    payload := body.extract b.offset (b.offset + b.size.bytes) }

/-- A server that gives every block in the size asked for, the first one in a size of its own. -/
def blockServer (body : ByteArray) (first : BlockSize) (requests : List Message) : Message :=
  match requests.getLast? with
  | none => { type := .reset, code := .empty }
  | some r =>
    match r.askedBlock, r.sentBlock with
    | some b, _ => blockAnswer r body b.number b.size
    | none, some { more := true, .. } =>
      { type := .acknowledgement, code := .response .continue, id := r.id, token := r.token }
    | none, _ => blockAnswer r body 0 first

theorem blockAnswer_carries (r : Message) (body : ByteArray) {number : UInt32} (size : BlockSize)
    (h : number.toNat ≤ Block.maxNumber) :
    (blockAnswer r body number size).Carries body (number.toNat * size.bytes) size := by
  let more := decide (number.toNat * size.bytes + size.bytes < body.size)
  let b : Block := { number, size, more }
  have hvalue : (blockAnswer r body number size).block2Value = some (UInt32.ofNat b.value) := rfl
  have hdecode : Block.decode (UInt32.ofNat b.value) = .ok b :=
    Block.decode_of_encode (Block.encode_of_le h)
  refine ⟨⟨number, more, ?_, rfl, by simp [more]⟩, rfl⟩
  exact Message.responseBlock_eq_ok_iff.mpr ⟨_, hvalue, hdecode⟩

theorem number_le_of_askedBlock {m : Message} {b : Block} (h : m.askedBlock = some b) :
    b.number.toNat ≤ Block.maxNumber := by
  obtain ⟨value, -, hvalue⟩ := Option.bind_eq_some_iff.mp h
  cases hd : Block.decode value with
  | error e =>
    rw [hd] at hvalue
    cases hvalue
  | ok c =>
    rw [hd] at hvalue
    cases hvalue
    exact Block.number_le_of_decode hd

theorem blockServer_honest (body : ByteArray) (first : BlockSize) :
    Honest body (blockServer body first) where
  accepts := by
    intro earlier r b hasked hsent hmore
    obtain ⟨number, size, more⟩ := b
    cases hmore
    unfold blockServer
    rw [List.getLast?_concat]
    simp only [hasked, hsent]
    rfl
  concludes := by
    intro earlier r hr
    have hanswer : blockServer body first (earlier ++ [r]) = blockAnswer r body 0 first := by
      unfold blockServer
      rw [List.getLast?_concat]
      cases hsent : r.sentBlock with
      | none => simp only [hr.asks, hsent]
      | some b =>
        obtain ⟨number, size, more⟩ := b
        cases hr.last _ hsent
        simp only [hr.asks, hsent]
    have hcarries : (blockAnswer r body 0 first).Carries body ((0 : UInt32).toNat * first.bytes) first :=
      blockAnswer_carries r body first (by decide)
    rw [UInt32.toNat_zero, Nat.zero_mul] at hcarries
    rw [hanswer]
    exact ⟨rfl, .inr ⟨first, hcarries⟩⟩
  serves := by
    intro earlier r b hasked _
    have hanswer : blockServer body first (earlier ++ [r]) = blockAnswer r body b.number b.size := by
      unfold blockServer
      rw [List.getLast?_concat]
      simp only [hasked]
    rw [hanswer]
    exact ⟨rfl, b.size, Nat.le_refl _, blockAnswer_carries r body b.size (number_le_of_askedBlock hasked)⟩

end Coap
