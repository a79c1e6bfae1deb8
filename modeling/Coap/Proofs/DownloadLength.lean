import Coap.Proofs.DownloadSoundness

/-! How many requests a download can send. A block after the first one starts at a multiple of the
smallest block size, and no block starts beyond a fixed place; so a server that brings something
with every block runs out of places. One that announces more and brings nothing does not. -/
namespace Coap.Download

/-- Whether an answer announces more blocks, but brings no bytes itself. -/
def stalls : Outcome → Bool
  | .ok m => m.payload.size == 0 && match m.responseBlock with
    | .ok b => b.more
    | .error _ => false
  | .error _ => false

/-- The end of the last place at which a block can start, in units of the smallest block. -/
def placeLimit : Nat := Block.maxNumber * 1024 + 16

/-- The number of places at or after a given one at which a block can start. -/
def placesFrom (place : Nat) : Nat := (placeLimit - place) / 16

/-- More requests than any download sends whose blocks all bring something: 2 ^ 26. -/
def maxRequests : Nat := 67108864

theorem sixteen_dvd_bytes (s : BlockSize) : 16 ∣ s.bytes := by
  cases s <;> decide

theorem offset_lt_placeLimit {b : Block} (h : b.number.toNat ≤ Block.maxNumber) :
    b.offset < placeLimit := by
  have hle : b.offset ≤ Block.maxNumber * 1024 := Nat.mul_le_mul h b.size.bytes_le
  unfold placeLimit
  omega

/-- Where a block starts and more than nothing follows, one place fewer is left. -/
theorem placesFrom_advance {b : Block} {place count : Nat} (hb : b.number.toNat ≤ Block.maxNumber)
    (ho : b.offset = place) (hc : 0 < count) :
    placesFrom (place + count) + 1 ≤ placesFrom place := by
  have hlt : place < placeLimit := ho ▸ offset_lt_placeLimit hb
  obtain ⟨k, hk⟩ : 16 ∣ place := ho ▸ Nat.dvd_mul_left_of_dvd (sixteen_dvd_bytes b.size) _
  have hlimit : placeLimit = 16 * (Block.maxNumber * 64 + 1) := by unfold placeLimit; omega
  unfold placesFrom
  -- Both the limit and the place are multiples of 16, so nothing is lost in the division.
  omega

theorem placesFrom_lt (place : Nat) : placesFrom place < maxRequests := by
  have hlimit : placeLimit = 1073740816 := by decide
  unfold placesFrom maxRequests
  omega

theorem course_of_last {d : Download} {answers : List Outcome} {requests : List Message}
    {result : Option (Except ClientError Assembly)} (hc : Course d answers requests result)
    (hlast : d.block.more = false) : requests = [] := by
  cases hc with
  | complete | unreachable => rfl
  | _ hm =>
    rw [hlast] at hm
    cases hm

/-- From where a download stands it sends one request for each place that is left, one for the
place that is just being asked for, and one for each answer that stalls. -/
theorem course_length {d : Download} {answers : List Outcome} {requests : List Message}
    {result : Option (Except ClientError Assembly)} (hc : Course d answers requests result) :
    requests.length ≤
      placesFrom d.buffer.size + 1 + (answers.take requests.length).countP stalls := by
  induction hc with
  | complete | unreachable => exact Nat.zero_le _
  | unanswered | failed | rejected | unreadable | misplaced =>
    rw [List.length_singleton]
    omega
  | @accepted d r m b rest requests result hm hr hs hb ho hrest ih =>
    have hsize : (d.accept m b).buffer.size = d.buffer.size + m.payload.size :=
      ByteArray.size_append
    rw [List.length_cons, List.take_succ_cons, List.countP_cons]
    cases hmore : b.more with
    | false =>
      -- Nothing is asked after the last block.
      rw [course_of_last hrest hmore, List.length_nil]
      omega
    | true =>
      rcases Nat.eq_zero_or_pos m.payload.size with hnone | hsome
      · -- The block pays for its request by being one that stalls.
        have hstalls : stalls (.ok m) = true := by simp [stalls, hnone, hb, hmore]
        have hsame : (d.accept m b).buffer.size = d.buffer.size := by omega
        rw [hsame] at ih
        rw [if_pos hstalls]
        omega
      · rw [hsize] at ih
        have hfewer := placesFrom_advance (Message.number_le_of_responseBlock hb) ho hsome
        omega

/-- A download sends at most 2 ^ 26 requests and one more for each answer that announces more but
brings nothing, whatever it is to fetch and whatever the server answers. -/
theorem requests_bounded_by_stalls (template first : Message) (answers : List Outcome) :
    let t := Stride.run resume (start template first) answers
    t.requests.length ≤ maxRequests + (answers.take t.requests.length).countP stalls := by
  intro t
  cases hb : first.responseBlock with
  | error e =>
    have hturn : (start template first).turn = .finish (.error e) := by simp [start, hb]
    have ht : t.requests = [] := by simp [t, Stride.run_of_finish hturn]
    rw [ht]
    exact Nat.zero_le _
  | ok b =>
    let d : Download :=
      { template, announced := first.size2Value.map UInt32.toNat, buffer := first.payload, block := b }
    have hturn : (start template first).turn = d.turn := by simp [start, hb, d]
    have hlength : t.requests.length ≤
        placesFrom d.buffer.size + 1 + (answers.take t.requests.length).countP stalls :=
      course_length (course_of_turn hturn answers)
    have hplaces := placesFrom_lt d.buffer.size
    omega

/-! A server that stalls for ever. -/

/-- The first of several blocks, without its bytes. -/
def emptyBlock : Message :=
  { type := .acknowledgement, code := .response .content, options := [.block2 8] }

/-- A download that has received nothing but such blocks. -/
def stalled (template : Message) : Download :=
  { template, announced := none, buffer := ByteArray.empty, block := ⟨0, .s16, true⟩ }

theorem resume_stalled (template : Message) :
    ((stalled template).resume (.ok emptyBlock)).turn = (stalled template).turn := by
  have hb : emptyBlock.responseBlock = .ok ⟨0, .s16, true⟩ := rfl
  have hsame : (stalled template).accept emptyBlock ⟨0, .s16, true⟩ = stalled template := by
    unfold accept stalled
    rw [show emptyBlock.payload = ByteArray.empty from rfl, ByteArray.append_empty]
  rw [resume_of_accepted rfl hb rfl, hsame]

/-- Every such answer costs one more request. -/
theorem requests_of_stalled {template : Message} {s : Stride Download (Except ClientError Assembly)}
    (hs : s.turn = (stalled template).turn) (n : Nat) :
    (s.run resume (List.replicate n (.ok emptyBlock))).requests.length = n + 1 := by
  have hask : s.turn = .ask (template.setOption (.block2 16)) (stalled template) := hs.trans rfl
  induction n generalizing s with
  | zero =>
    rw [List.replicate_zero, Stride.run_of_ask_nil hask]
    rfl
  | succ n ih =>
    have hnext := resume_stalled template
    rw [List.replicate_succ, Stride.run_of_ask_cons hask, List.length_cons,
      ih hnext (hnext.trans rfl)]

/-- No number of requests is enough for every server. -/
theorem requests_are_unbounded :
    ¬ ∃ bound, ∀ (template first : Message) (answers : List Outcome),
      (Stride.run resume (start template first) answers).requests.length ≤ bound := by
  rintro ⟨bound, h⟩
  let template : Message := { type := .confirmable, code := .request .get }
  have hstart : (start template emptyBlock).turn = (stalled template).turn := rfl
  have hmany := requests_of_stalled hstart bound
  have hfew := h template emptyBlock (List.replicate bound (.ok emptyBlock))
  omega

end Coap.Download
