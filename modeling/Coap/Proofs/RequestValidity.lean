import Coap.Ids
import Coap.Proofs.BlockOnWire
import Coap.Proofs.DownloadBlocks
import Coap.Proofs.MessageValidity
import Coap.Proofs.UploadRequests
import Coap.Request
import Coap.Transfer.Complete
import Mathlib.Algebra.Group.Nat.Defs

/-! Requests that a transfer makes out of a valid one are valid themselves: the block options fit
into three bytes, and nothing else is added but a size. -/
namespace Coap

namespace MessageOption

theorem size1_encodes (n : UInt32) : (size1 n).Encodes :=
  encodes_iff_inLimits.mpr nofun

end MessageOption

namespace Message

theorem Valid.setOption {m : Message} {o : MessageOption} (h : m.Valid) (ho : o.Encodes) :
    (m.setOption o).Valid where
  token := h.token
  data := h.data
  options := by
    intro p hp
    rcases List.mem_append.mp hp with hp | hp
    · exact h.options p (List.mem_filter.mp hp).1
    · rw [List.mem_singleton.mp hp]
      exact ho

/-- Only an empty message must not have a payload. -/
theorem Valid.withPayload {m : Message} (h : m.Valid) {payload : ByteArray}
    (hp : m.payload.size = 0 → payload.size = 0) : { m with payload }.Valid where
  token := h.token
  data := fun hc => hp (h.data hc)
  options := h.options

theorem Valid.withToken {m : Message} (h : m.Valid) {token : ByteArray}
    (ht : token.size ≤ maxTokenLength) : { m with token }.Valid where
  token := ht
  data := h.data
  options := h.options

theorem Valid.followUp {m : Message} (h : m.Valid) : m.followUp.Valid where
  token := h.token
  data := fun _ => rfl
  options := fun o ho => h.options o (List.mem_filter.mp (List.mem_filter.mp ho).1).1

end Message

/-- A request is turned into the message that it is assembled to, if that is valid. -/
theorem Request.toMessage_eq_ok_iff {request : Request} {m : Message} :
    request.toMessage = .ok m ↔ m = request.assemble ∧ m.Valid := by
  unfold toMessage
  dsimp only
  rw [← Message.validate_eq_ok_iff]
  cases hv : request.assemble.validate with
  | error e =>
    refine iff_of_false nofun ?_
    rintro ⟨rfl, h⟩
    cases hv.symm.trans h
  | ok u =>
    constructor
    · intro h
      cases h
      exact ⟨rfl, hv⟩
    · rintro ⟨rfl, -⟩
      rfl

/-- Neither the fields of a request nor the check of it change the type. -/
theorem Request.type_of_toMessage {request : Request} {m : Message}
    (h : request.toMessage = .ok m) : m.type = request.message.type := by
  rw [(toMessage_eq_ok_iff.mp h).1]
  unfold assemble
  cases request.observe <;> rfl

theorem Request.code_of_toMessage {request : Request} {m : Message}
    (h : request.toMessage = .ok m) : m.code = request.message.code := by
  rw [(toMessage_eq_ok_iff.mp h).1]
  unfold assemble
  cases request.observe <;> rfl

theorem Tokens.take_size (ts : Tokens) : ts.take.1.size = Message.maxTokenLength := rfl

/-- Every block of an upload is a valid request if the whole one is. -/
theorem Upload.request_valid {u : Upload} {r m : Message} (hm : m.Valid) (hp : u.payload = m.payload)
    (ht : u.template = { m with payload := ByteArray.empty }) (h : u.request = .ok r) : r.Valid := by
  obtain ⟨value, he, rfl⟩ := request_eq_ok h
  have hpart : { m with payload := u.payload.extract u.offset u.stop }.Valid := by
    apply hm.withPayload
    intro hempty
    rw [extract_size]
    have hs := u.stop_le
    rw [hp] at hs
    omega
  have hblock := hpart.setOption (MessageOption.CarriesBlock.block1.encodes he)
  rw [ht]
  dsimp only
  split
  · exact hblock.setOption (MessageOption.size1_encodes _)
  · exact hblock

theorem Download.request_valid {d : Download} {r : Message} (ht : d.template.Valid)
    (h : d.request = .ok r) : r.Valid := by
  obtain ⟨value, he, rfl⟩ := request_eq_ok h
  exact ht.setOption (MessageOption.CarriesBlock.block2.encodes he)

end Coap
