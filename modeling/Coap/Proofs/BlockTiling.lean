import Coap.Proofs.DownloadSoundness

/-! Where the blocks of a payload that has been put together lie. Every block after the first starts
where those before it ended; the place of the first one is never looked at. -/
namespace Coap.Download

/-- The messages carry blocks that cover a payload from its first byte on, without gap or overlap. -/
def Tiles (ms : List Message) : Prop :=
  ∀ k m, ms[k]? = some m → ∃ b, m.responseBlock = .ok b ∧ b.offset = (Message.joined (ms.take k)).size

/-- Consecutive blocks tile their payload exactly if the first of them is its beginning. -/
theorem tiles_iff_of_consecutive {first : Message} {ms : List Message} {b : Block}
    (h : Consecutive (first :: ms)) (hb : first.responseBlock = .ok b) :
    Tiles (first :: ms) ↔ b.offset = 0 := by
  constructor
  · intro htiles
    obtain ⟨b', hb', hplace⟩ := htiles 0 first rfl
    rw [hb] at hb'
    cases hb'
    exact hplace
  · intro hzero k m hk
    cases k with
    | zero =>
      cases hk
      exact ⟨b, hb, hzero⟩
    | succ k =>
      obtain ⟨b', hb', hplace, -⟩ := h (k + 1) m hk
      exact ⟨b', hb', (hplace (Nat.succ_ne_zero k)).2⟩

/-- A payload is put together from the first message and from successes that follow one another, the
last of which is the first to announce no more. -/
theorem consecutive_of_reassembled {first : Message} {used : List Outcome} {payload : ByteArray}
    (h : Ending [first] used (.ok (.reassembled payload))) :
    ∃ ms earlier last b, used = ms.map .ok ∧ payload = Message.joined (first :: ms) ∧
      Consecutive (first :: ms) ∧ first :: ms = earlier ++ [last] ∧ last.responseBlock = .ok b ∧
      b.more = false := by
  cases h with
  | @reassembled ms earlier last b hc hlast hb hmore =>
    exact ⟨ms, earlier, last, b, rfl, rfl, hc, hlast, hb, hmore⟩

/-- What follows the latest block does not depend on the place of that block. -/
theorem resume_of_moved (d : Download) (b : Block) (answer : Outcome) :
    resume { d with block := b } answer = d.resume answer := by
  cases answer with
  | error e => rfl
  | ok m => rfl

/-- The block is the last one, or the one after it has a number. -/
def HasNext (b : Block) : Prop :=
  b.more = true → b.number.toNat + 1 ≤ Block.maxNumber

theorem request_of_hasNext {d : Download} (h : HasNext d.block) (hmore : d.block.more = true) :
    ∃ r, d.request = .ok r := by
  have hreach := h hmore
  have hnumber : d.block.number.toNat ≤ Block.maxNumber := by omega
  have hencodes : d.next.number.toNat ≤ Block.maxNumber := by
    rw [next_number hnumber]
    exact hreach
  refine ⟨d.template.setOption (.block2 (UInt32.ofNat d.next.value)), ?_⟩
  simp only [request, Block.encode_of_le hencodes]

/-- Two downloads that differ in the place of the latest block only have the same result. -/
theorem result_of_moved {d : Download} {b : Block} {s s' : Stride Download (Except ClientError Assembly)}
    (hs : s.turn = d.turn) (hs' : s'.turn = turn { d with block := b })
    (hmore : b.more = d.block.more) (hd : HasNext d.block) (hb : HasNext b)
    (answers : List Outcome) : (s'.run resume answers).result = (s.run resume answers).result := by
  cases hm : d.block.more with
  | false =>
    have hfinish : s.turn = .finish (.ok (.reassembled d.buffer)) := hs.trans (turn_of_complete hm)
    have hfinish' : s'.turn = .finish (.ok (.reassembled d.buffer)) :=
      hs'.trans (turn_of_complete (hmore.trans hm))
    rw [Stride.run_of_finish hfinish, Stride.run_of_finish hfinish']
  | true =>
    have hm' : b.more = true := hmore.trans hm
    obtain ⟨r, hr⟩ := request_of_hasNext hd hm
    obtain ⟨r', hr'⟩ := request_of_hasNext (d := { d with block := b }) hb hm'
    have hask : s.turn = .ask r d := hs.trans (turn_of_request hm hr)
    have hask' : s'.turn = .ask r' { d with block := b } := hs'.trans (turn_of_request hm' hr')
    cases answers with
    | nil => rw [Stride.run_of_ask_nil hask, Stride.run_of_ask_nil hask']
    | cons answer rest =>
      rw [Stride.run_of_ask_cons hask, Stride.run_of_ask_cons hask']
      change ((resume { d with block := b } answer).run resume rest).result = _
      rw [resume_of_moved]

/-- What a payload is put together from, whatever the server answers: blocks that follow one another
from the first message on. They tile the payload if the first of them starts at its first byte, which
nothing sees to: a first message that claims any other place for its bytes leads to the same result,
and to them as the whole payload if it announces no more. -/
theorem payload_starts_at_first_block (template first : Message) (answers : List Outcome) :
    let t := Stride.run resume (start template first) answers
    (∀ payload, t.result = some (.ok (.reassembled payload)) →
      ∃ ms earlier last b b', answers.take t.requests.length = ms.map .ok ∧
        payload = Message.joined (first :: ms) ∧ Consecutive (first :: ms) ∧
        first :: ms = earlier ++ [last] ∧ last.responseBlock = .ok b' ∧ b'.more = false ∧
        first.responseBlock = .ok b ∧ (Tiles (first :: ms) ↔ b.offset = 0)) ∧
    (∀ (other : Message) (b b' : Block), first.responseBlock = .ok b → other.responseBlock = .ok b' →
      other.payload = first.payload → other.size2Value = first.size2Value → b'.more = b.more →
      HasNext b → HasNext b' →
        (Stride.run resume (start template other) answers).result = t.result) ∧
    (∀ b, first.responseBlock = .ok b → b.more = false →
      t.requests = [] ∧ t.result = some (.ok (.reassembled first.payload))) := by
  intro t
  refine ⟨?_, ?_, ?_⟩
  · intro payload hresult
    obtain ⟨-, hend⟩ := ending_of_start template first answers _ hresult
    obtain ⟨ms, earlier, last, b', hused, hjoined, hc, hlast, hb', hmore⟩ :=
      consecutive_of_reassembled hend
    obtain ⟨b, hb, -⟩ := hc 0 first rfl
    exact ⟨ms, earlier, last, b, b', hused, hjoined, hc, hlast, hb', hmore, hb,
      tiles_iff_of_consecutive hc hb⟩
  · intro other b b' hb hb' hpayload hsize hmore hnext hnext'
    have hturn' := turn_of_start hb' template
    rw [hpayload, hsize] at hturn'
    exact result_of_moved (turn_of_start hb template) hturn' hmore hnext hnext' answers
  · intro b hb hmore
    have hfinish := (turn_of_start hb template).trans (turn_of_complete hmore)
    have ht : t = _ := Stride.run_of_finish hfinish answers
    rw [ht]
    exact ⟨rfl, rfl⟩

/-- A response in the last block of sixteen bytes of a payload, which is not its first one. -/
def laterBlock : Message :=
  { type := .acknowledgement, code := .response .content, options := [.block2 16]
    payload := ⟨#[1, 2, 3, 4]⟩ }

/-- The bytes of a later block are returned as the whole payload. -/
theorem first_block_may_be_any :
    ¬ ∀ (template first : Message) (answers : List Outcome) (payload : ByteArray),
      let t := Stride.run resume (start template first) answers
      t.result = some (.ok (.reassembled payload)) →
        ∃ ms, answers.take t.requests.length = ms.map .ok ∧ Tiles (first :: ms) := by
  intro h
  let template : Message := { type := .confirmable, code := .request .get }
  obtain ⟨ms, -, htiles⟩ := h template laterBlock [] laterBlock.payload rfl
  obtain ⟨b, hb, hzero⟩ := htiles 0 laterBlock rfl
  have hblock : laterBlock.responseBlock = .ok ⟨1, .s16, false⟩ := rfl
  rw [hblock] at hb
  cases hb
  have hplace : (16 : Nat) = 0 := hzero
  exact absurd hplace (by decide)

end Coap.Download
