import Coap.Proofs.BlockValue
import Coap.Proofs.MessageParts
import Coap.Transfer.Download

/-! The blocks of a download: which of them follow one another, what can be wrong with the next one,
and how the one after it is asked for. -/
namespace Coap

theorem Message.responseBlock_eq_ok_iff {m : Message} {b : Block} :
    m.responseBlock = .ok b ↔ ∃ value, m.block2Value = some value ∧ Block.decode value = .ok b := by
  unfold responseBlock
  cases m.block2Value with
  | none => simp
  | some value => cases h : Block.decode value <;> simp [h]

theorem Message.number_le_of_responseBlock {m : Message} {b : Block} (h : m.responseBlock = .ok b) :
    b.number.toNat ≤ Block.maxNumber := by
  obtain ⟨value, -, hd⟩ := responseBlock_eq_ok_iff.mp h
  exact Block.number_le_of_decode hd

namespace Download

/-- What is wrong with a message as the next block after some others. The first one may be any
block. -/
inductive Flaw (earlier : List Message) (m : Message) : Violation → Prop
  | missing : m.block2Value = none → Flaw earlier m .missingBlock
  | undecodable {value : UInt32} {e : BlockError} :
      m.block2Value = some value → Block.decode value = .error e →
        Flaw earlier m (.undecodableBlock e)
  | misplaced {b : Block} :
      m.responseBlock = .ok b → earlier ≠ [] → b.offset ≠ (Message.joined earlier).size →
        Flaw earlier m (.misplacedBlock (Message.joined earlier).size b)
  /-- More is announced, but the next block has no number. -/
  | unreachable {b : Block} :
      m.responseBlock = .ok b → (earlier ≠ [] → b.offset = (Message.joined earlier).size) →
      b.more = true → Block.maxNumber < b.number.toNat + 1 →
        Flaw earlier m (.unreachableBlock (.numberOutOfRange (b.number + 1)))

/-- None of the messages is wrong after those before it. -/
def Unflawed (ms : List Message) : Prop :=
  ∀ k m, ms[k]? = some m → ∀ what, ¬ Flaw (ms.take k) m what

/-- Messages that carry blocks of one payload: each after the first is a success and starts where
those before it ended, and each but the last announces more. -/
def Consecutive (ms : List Message) : Prop :=
  ∀ k m, ms[k]? = some m → ∃ b, m.responseBlock = .ok b ∧
    (k ≠ 0 → m.code.isSuccess = true ∧ b.offset = (Message.joined (ms.take k)).size) ∧
    (k + 1 < ms.length → b.more = true)

/-- A request for the block after `b`. -/
structure Continues (template : Message) (b : Block) (r : Message) : Prop where
  type : r.type = template.type
  code : r.code = template.code
  token : r.token = template.token
  payload : r.payload = template.payload
  block : ∃ value next, r.numbered OptionKind.block2.number = [.block2 value] ∧
    Block.decode value = .ok next ∧ next.number.toNat = b.number.toNat + 1 ∧ next.size = b.size ∧
    next.more = false
  others : r.otherThan [OptionKind.block2.number] = template.otherThan [OptionKind.block2.number]

theorem next_number {d : Download} (h : d.block.number.toNat ≤ Block.maxNumber) :
    d.next.number.toNat = d.block.number.toNat + 1 := by
  unfold Block.maxNumber at h
  change (d.block.number + 1).toNat = d.block.number.toNat + 1
  rw [UInt32.toNat_add]
  exact Nat.mod_eq_of_lt (by simp; omega)

theorem request_eq_ok {d : Download} {r : Message} (h : d.request = .ok r) :
    ∃ value, d.next.encode = .ok value ∧ r = d.template.setOption (.block2 value) := by
  unfold request at h
  cases he : d.next.encode with
  | error e => rw [he] at h; cases h
  | ok value =>
    rw [he] at h
    cases h
    exact ⟨value, rfl, rfl⟩

theorem request_eq_error {d : Download} {e : ClientError} (h : d.request = .error e) :
    e = .protocolViolation (.unreachableBlock (.numberOutOfRange d.next.number)) ∧
      Block.maxNumber < d.next.number.toNat := by
  unfold request at h
  by_cases hn : d.next.number.toNat ≤ Block.maxNumber
  · rw [Block.encode_of_le hn] at h
    cases h
  · have hlt : Block.maxNumber < d.next.number.toNat := Nat.lt_of_not_le hn
    rw [Block.encode_of_lt hlt] at h
    cases h
    exact ⟨rfl, hlt⟩

theorem request_continues {d : Download} {r : Message} (hb : d.block.number.toNat ≤ Block.maxNumber)
    (h : d.request = .ok r) : Continues d.template d.block r := by
  obtain ⟨value, he, rfl⟩ := request_eq_ok h
  exact {
    type := rfl
    code := rfl
    token := rfl
    payload := rfl
    block := ⟨value, d.next, Message.numbered_setOption_self _ (.block2 value),
      Block.decode_of_encode he, next_number hb, rfl, rfl⟩
    others := Message.otherThan_setOption _ (.block2 value) _ (List.mem_cons_self ..) }

/-- What a download has received so far: the messages `got`, the latest of which carries its block.
-/
structure Holds (d : Download) (got : List Message) : Prop where
  joined : d.buffer = Message.joined got
  consecutive : Consecutive got
  last : ∃ earlier m, got = earlier ++ [m] ∧ m.responseBlock = .ok d.block ∧ Unflawed earlier

theorem Holds.ne_nil {d : Download} {got : List Message} (h : d.Holds got) : got ≠ [] := by
  obtain ⟨earlier, m, rfl, -⟩ := h.last
  simp

theorem unflawed_concat {earlier : List Message} {m : Message} (h : Unflawed earlier)
    (hm : ∀ what, ¬ Flaw earlier m what) : Unflawed (earlier ++ [m]) := by
  intro k x hx what hf
  rcases Nat.lt_or_ge k earlier.length with hk | hk
  · rw [List.getElem?_append_left hk] at hx
    rw [List.take_append_of_le_length (Nat.le_of_lt hk)] at hf
    exact h k x hx what hf
  · rw [List.getElem?_append_right hk, List.getElem?_singleton] at hx
    split at hx
    · next h0 =>
      cases hx
      have hlen : k = earlier.length := by omega
      rw [hlen, List.take_left] at hf
      exact hm what hf
    · cases hx

theorem consecutive_concat {got : List Message} {m : Message} {b : Block} (h : Consecutive got)
    (hmore : ∀ earlier last b', got = earlier ++ [last] → last.responseBlock = .ok b' → b'.more = true)
    (hs : m.code.isSuccess = true) (hb : m.responseBlock = .ok b)
    (ho : b.offset = (Message.joined got).size) : Consecutive (got ++ [m]) := by
  intro k x hx
  rcases Nat.lt_or_ge k got.length with hk | hk
  · rw [List.getElem?_append_left hk] at hx
    obtain ⟨b', hb', hplace, hnext⟩ := h k x hx
    rw [List.take_append_of_le_length (Nat.le_of_lt hk)]
    refine ⟨b', hb', hplace, fun _ => ?_⟩
    rcases Nat.lt_or_ge (k + 1) got.length with hk' | hk'
    · exact hnext hk'
    · -- The block that was the latest until now is followed by another one.
      have hlast : got = got.take k ++ [x] := by
        have hlen : got.length = k + 1 := by omega
        have hget : got[k] = x := (List.getElem?_eq_some_iff.mp hx).2
        rw [← hget, List.take_append_getElem, List.take_of_length_le (by omega)]
      exact hmore _ x b' hlast hb'
  · rw [List.getElem?_append_right hk, List.getElem?_singleton] at hx
    split at hx
    · next h0 =>
      cases hx
      have hlen : k = got.length := by omega
      rw [hlen, List.take_left]
      refine ⟨b, hb, fun _ => ⟨hs, ho⟩, fun hlt => ?_⟩
      rw [List.length_append, List.length_singleton] at hlt
      omega
    · cases hx

/-- A block that has been asked beyond was all right. -/
theorem unflawed_of_request {d : Download} {got : List Message} {r : Message} (h : d.Holds got)
    (hr : d.request = .ok r) : Unflawed got := by
  obtain ⟨earlier, m, rfl, hb, hu⟩ := h.last
  apply unflawed_concat hu
  intro what hf
  obtain ⟨value, hv, hd⟩ := Message.responseBlock_eq_ok_iff.mp hb
  obtain ⟨b, hb', hplace, -⟩ := h.consecutive earlier.length m (by simp)
  rw [hb] at hb'
  cases hb'
  rw [List.take_left] at hplace
  cases hf with
  | missing hn => rw [hn] at hv; cases hv
  | undecodable hs he =>
    rw [hs] at hv
    cases hv
    rw [he] at hd
    cases hd
  | misplaced hb' hne ho =>
    rw [hb] at hb'
    cases hb'
    exact ho (hplace (by simpa using hne)).2
  | unreachable hb' _ _ hlt =>
    rw [hb] at hb'
    cases hb'
    obtain ⟨code, he, -⟩ := request_eq_ok hr
    have hle := Block.number_le_of_encode he
    rw [next_number (Message.number_le_of_responseBlock hb)] at hle
    omega

theorem accept_holds {d : Download} {got : List Message} {m : Message} {b : Block} {r : Message}
    (h : d.Holds got) (hr : d.request = .ok r) (hm : d.block.more = true)
    (hs : m.code.isSuccess = true) (hb : m.responseBlock = .ok b) (ho : b.offset = d.buffer.size) :
    (d.accept m b).Holds (got ++ [m]) := by
  obtain ⟨earlier, last, hgot, hlast, -⟩ := h.last
  refine ⟨?_, ?_, ⟨got, m, rfl, hb, unflawed_of_request h hr⟩⟩
  · rw [Message.joined_concat, ← h.joined]
    rfl
  · apply consecutive_concat h.consecutive ?_ hs hb (by rw [← h.joined]; exact ho)
    intro earlier' last' b' hgot' hb'
    obtain ⟨-, hsame⟩ := List.append_inj' (hgot.symm.trans hgot') rfl
    cases hsame
    rw [hlast] at hb'
    cases hb'
    exact hm

end Download

end Coap
