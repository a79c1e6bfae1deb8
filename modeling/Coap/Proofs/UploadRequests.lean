import Coap.Proofs.BlockValue
import Coap.Proofs.MessageParts
import Coap.Transfer.Upload

/-! The requests of an upload. Its offset stays a multiple of its block size, although the server
may change the size with every answer, so that each block number times its size is the number of
bytes sent before. -/
namespace Coap

/-- The block size that an answer asks for, if its block option can be read. -/
def Message.acknowledgedSize (m : Message) : Option BlockSize :=
  match m.block1Value with
  | none => none
  | some value =>
    match Block.decode value with
    | .ok b => some b.size
    | .error _ => none

/-- The block sizes that answers ask for, in their order. -/
def acknowledgedSizes (answers : List Outcome) : List BlockSize :=
  answers.filterMap fun
    | .ok m => m.acknowledgedSize
    | .error _ => none

/-- A size is the smallest of a list. -/
def BlockSize.IsSmallest (s : BlockSize) (sizes : List BlockSize) : Prop :=
  s ∈ sizes ∧ ∀ other ∈ sizes, s.bytes ≤ other.bytes

theorem BlockSize.isSmallest_singleton (s : BlockSize) : s.IsSmallest [s] := by
  refine ⟨List.mem_singleton_self s, ?_⟩
  intro other h
  have hs : other = s := List.mem_singleton.mp h
  exact Nat.le_of_eq (congrArg bytes hs.symm)

namespace Upload

/-- The request for one block of a payload, of which `before` has been sent already. -/
structure IsPart (template : Message) (payload : ByteArray) (size : BlockSize) (before : ByteArray)
    (r : Message) : Prop where
  type : r.type = template.type
  code : r.code = template.code
  token : r.token = template.token
  data : ∃ rest, before ++ r.payload ++ rest = payload
  length : r.payload.size = min size.bytes (payload.size - before.size)
  block : ∃ value number more,
    r.numbered OptionKind.block1.number = [.block1 value] ∧
      Block.decode value = .ok { number, size, more } ∧ number.toNat * size.bytes = before.size ∧
      (more = true ↔ before.size + r.payload.size < payload.size)

/-- The options of a first request, which announces the size of the whole payload. -/
structure Announces (template : Message) (payload : ByteArray) (r : Message) : Prop where
  size : ∃ total, r.numbered OptionKind.size1.number = [.size1 total] ∧ total.toNat = payload.size
  others : r.otherThan [OptionKind.block1.number, OptionKind.size1.number] =
    template.otherThan [OptionKind.block1.number, OptionKind.size1.number]

/-- An upload whose current block starts inside the payload, at a multiple of the block size. -/
structure Aligned (u : Upload) : Prop where
  dvd : u.size.bytes ∣ u.offset
  within : u.offset ≤ u.payload.size
  fits : u.payload.size ≤ (Block.maxNumber + 1) * 1024

theorem offset_le_stop {u : Upload} (h : u.Aligned) : u.offset ≤ u.stop := by
  have hw := h.within
  unfold stop
  omega

theorem stop_le (u : Upload) : u.stop ≤ u.payload.size := by
  unfold stop
  omega

theorem stop_of_more {u : Upload} (h : u.more = true) : u.stop = u.offset + u.size.bytes := by
  have hlt : u.stop < u.payload.size := by simpa [more] using h
  unfold stop at hlt ⊢
  omega

theorem stop_of_not_more {u : Upload} (h : u.more = false) : u.stop = u.payload.size := by
  have hle : u.payload.size ≤ u.stop := by simpa [more] using h
  exact Nat.le_antisymm u.stop_le hle

theorem more_iff (u : Upload) : u.more = true ↔ u.stop < u.payload.size := by
  simp [more]

theorem extract_size {u : Upload} : (u.payload.extract u.offset u.stop).size = u.stop - u.offset := by
  have hs := u.stop_le
  rw [ByteArray.size_extract]
  omega

theorem before_append_extract {u : Upload} (h : u.Aligned) :
    u.payload.extract 0 u.offset ++ u.payload.extract u.offset u.stop = u.payload.extract 0 u.stop := by
  have hle := offset_le_stop h
  rw [ByteArray.extract_append_extract, Nat.max_eq_right hle, Nat.min_eq_left (Nat.zero_le _)]

theorem before_size {u : Upload} (h : u.Aligned) : (u.payload.extract 0 u.offset).size = u.offset := by
  have hw := h.within
  rw [ByteArray.size_extract]
  omega

/-- A payload whose blocks have numbers is not longer than the largest blocks reach. -/
theorem size_le_of_numbered {payload : ByteArray} {size : BlockSize}
    (h : (payload.size - 1) / size.bytes ≤ Block.maxNumber) :
    payload.size ≤ (Block.maxNumber + 1) * 1024 := by
  have hblocks : payload.size - 1 < (Block.maxNumber + 1) * size.bytes :=
    (Nat.div_lt_iff_lt_mul size.bytes_pos).mp (Nat.lt_succ_of_le h)
  have hlargest : (Block.maxNumber + 1) * size.bytes ≤ (Block.maxNumber + 1) * 1024 :=
    Nat.mul_le_mul_left _ size.bytes_le
  omega

theorem aligned_first (template : Message) {payload : ByteArray} {size : BlockSize}
    (h : (payload.size - 1) / size.bytes ≤ Block.maxNumber) :
    Aligned { template, payload, size, offset := 0 } :=
  ⟨Nat.dvd_zero _, Nat.zero_le _, size_le_of_numbered h⟩

/-- Where every block has a number, the size of the whole can be announced. -/
theorem size_lt_of_numbered {payload : ByteArray} {size : BlockSize}
    (h : (payload.size - 1) / size.bytes ≤ Block.maxNumber) : payload.size < UInt32.size :=
  calc payload.size
      ≤ (Block.maxNumber + 1) * 1024 := size_le_of_numbered h
    _ < UInt32.size := by decide

/-- Nothing but the numbers of its blocks keeps an upload from its first block. -/
theorem start_of_numbered (template : Message) {payload : ByteArray} {size : BlockSize}
    (h : (payload.size - 1) / size.bytes ≤ Block.maxNumber) :
    start template payload size = turn { template, payload, size, offset := 0 } := by
  have hsize : ¬ UInt32.size ≤ payload.size := Nat.not_le.mpr (size_lt_of_numbered h)
  unfold start
  rw [if_neg (Nat.not_lt.mpr h), if_neg hsize]

theorem number_lt {u : Upload} (h : u.Aligned) : u.offset / u.size.bytes < UInt32.size :=
  calc u.offset / u.size.bytes
      ≤ u.offset := Nat.div_le_self ..
    _ ≤ u.payload.size := h.within
    _ ≤ (Block.maxNumber + 1) * 1024 := h.fits
    _ < UInt32.size := by decide

/-- No block number is cut off on its way into 32 bits. -/
theorem number_eq {u : Upload} (h : u.Aligned) : u.block.number.toNat = u.offset / u.size.bytes :=
  UInt32.toNat_ofNatClamp_of_lt (number_lt h)

theorem number_mul_bytes {u : Upload} (h : u.Aligned) :
    u.block.number.toNat * u.size.bytes = u.offset := by
  rw [number_eq h]
  exact Nat.div_mul_cancel h.dvd

theorem request_eq_ok {u : Upload} {r : Message} (h : u.request = .ok r) :
    ∃ value, u.block.encode = .ok value ∧
      r = (let m := { u.template with payload := u.payload.extract u.offset u.stop }.setOption (.block1 value)
        if u.offset = 0 then m.setOption (.size1 (UInt32.ofNat u.payload.size)) else m) := by
  unfold request at h
  cases he : u.block.encode with
  | error e => rw [he] at h; cases h
  | ok value =>
    rw [he] at h
    cases h
    exact ⟨value, rfl, rfl⟩

theorem request_eq_error {u : Upload} {e : ClientError} (h : u.request = .error e) :
    e = .invalidArgument (.block (.numberOutOfRange u.block.number)) ∧
      Block.maxNumber < u.block.number.toNat := by
  unfold request at h
  by_cases hn : u.block.number.toNat ≤ Block.maxNumber
  · rw [Block.encode_of_le hn] at h
    cases h
  · have hlt : Block.maxNumber < u.block.number.toNat := Nat.lt_of_not_le hn
    rw [Block.encode_of_lt hlt] at h
    cases h
    exact ⟨rfl, hlt⟩

theorem request_payload {u : Upload} {r : Message} (h : u.request = .ok r) :
    r.payload = u.payload.extract u.offset u.stop := by
  obtain ⟨value, -, rfl⟩ := request_eq_ok h
  dsimp only
  split <;> rfl

theorem request_numbered {u : Upload} {r : Message} (h : u.request = .ok r) :
    ∃ value, r.numbered OptionKind.block1.number = [.block1 value] ∧ Block.decode value = .ok u.block := by
  obtain ⟨value, he, rfl⟩ := request_eq_ok h
  refine ⟨value, ?_, Block.decode_of_encode he⟩
  dsimp only
  split
  · rw [Message.numbered_setOption_ne _ (.size1 _) _
      (show OptionKind.size1.number ≠ OptionKind.block1.number by decide)]
    exact Message.numbered_setOption_self _ (.block1 value)
  · exact Message.numbered_setOption_self _ (.block1 value)

/-- The request for the current block is a part of the payload, after all that precedes its offset.
-/
theorem request_is_part {u : Upload} {r : Message} (ha : u.Aligned) (h : u.request = .ok r) :
    IsPart u.template u.payload u.size (u.payload.extract 0 u.offset) r := by
  have hp := request_payload h
  have hl : r.payload.size = u.stop - u.offset := by rw [hp, extract_size]
  have hle := offset_le_stop ha
  have hw := ha.within
  have hkept : r.type = u.template.type ∧ r.code = u.template.code ∧ r.token = u.template.token := by
    obtain ⟨value, -, rfl⟩ := request_eq_ok h
    dsimp only
    split <;> exact ⟨rfl, rfl, rfl⟩
  refine ⟨hkept.1, hkept.2.1, hkept.2.2, ?_, ?_, ?_⟩
  · refine ⟨u.payload.extract u.stop u.payload.size, ?_⟩
    rw [hp, before_append_extract ha, ByteArray.extract_append_extract]
    have hs := u.stop_le
    rw [Nat.max_eq_right hs, Nat.min_eq_left (Nat.zero_le _), ByteArray.extract_zero_size]
  · rw [hl, before_size ha]
    unfold stop
    omega
  · obtain ⟨value, hv, hd⟩ := request_numbered h
    refine ⟨value, u.block.number, u.block.more, hv, hd, ?_, ?_⟩
    · rw [before_size ha]
      exact number_mul_bytes ha
    · rw [before_size ha, hl, Nat.add_sub_cancel' hle]
      exact u.more_iff

theorem request_announces {u : Upload} {r : Message} (ha : u.Aligned) (h0 : u.offset = 0)
    (h : u.request = .ok r) : Announces u.template u.payload r := by
  have hf := ha.fits
  unfold Block.maxNumber at hf
  obtain ⟨value, -, rfl⟩ := request_eq_ok h
  simp only [h0, ↓reduceIte]
  refine ⟨⟨UInt32.ofNat u.payload.size, ?_, ?_⟩, ?_⟩
  · exact Message.numbered_setOption_self _ (.size1 _)
  · rw [UInt32.toNat_ofNat']
    exact Nat.mod_eq_of_lt (by omega)
  · exact (Message.otherThan_setOption _ (.size1 _) [OptionKind.block1.number, OptionKind.size1.number]
      (List.mem_cons_of_mem _ (List.mem_cons_self ..))).trans
        (Message.otherThan_setOption _ (.block1 value) _ (List.mem_cons_self ..))

theorem request_others {u : Upload} {r : Message} (h0 : u.offset ≠ 0) (h : u.request = .ok r) :
    r.otherThan [OptionKind.block1.number] = u.template.otherThan [OptionKind.block1.number] := by
  obtain ⟨value, -, rfl⟩ := request_eq_ok h
  simp only [h0, ↓reduceIte]
  exact Message.otherThan_setOption _ (.block1 value) [OptionKind.block1.number] (List.mem_cons_self ..)

theorem nextSize_eq (u : Upload) (m : Message) :
    u.nextSize m = match m.acknowledgedSize with
      | none => u.size
      | some s => if s.exponent < u.size.exponent then s else u.size := by
  unfold nextSize Message.acknowledgedSize
  cases m.block1Value with
  | none => rfl
  | some value =>
    dsimp only
    cases Block.decode value <;> rfl

theorem nextSize_isSmallest (u : Upload) (m : Message) :
    (u.nextSize m).IsSmallest (u.size :: m.acknowledgedSize.toList) := by
  rw [nextSize_eq]
  cases m.acknowledgedSize with
  | none => exact BlockSize.isSmallest_singleton u.size
  | some s =>
    by_cases hlt : s.exponent < u.size.exponent
    · have hle : s.bytes ≤ u.size.bytes := (BlockSize.bytes_le_bytes_iff _ _).mpr (Nat.le_of_lt hlt)
      simp [BlockSize.IsSmallest, hlt, hle]
    · have hle : u.size.bytes ≤ s.bytes :=
        (BlockSize.bytes_le_bytes_iff _ _).mpr (Nat.le_of_not_lt hlt)
      simp [BlockSize.IsSmallest, hlt, hle]

/-- The next block starts at a multiple of whatever size the answer has left. -/
theorem next_aligned {u : Upload} (h : u.Aligned) (hm : u.more = true) (m : Message) :
    (u.next m).Aligned := by
  have hs : (u.nextSize m).bytes ≤ u.size.bytes :=
    (u.nextSize_isSmallest m).2 u.size (List.mem_cons_self ..)
  have hd : (u.nextSize m).bytes ∣ u.size.bytes := BlockSize.bytes_dvd_bytes hs
  refine ⟨?_, u.stop_le, h.fits⟩
  change (u.nextSize m).bytes ∣ u.stop
  rw [stop_of_more hm]
  exact Nat.dvd_add (Nat.dvd_trans hd h.dvd) hd

end Upload

end Coap
