import Coap.Proofs.BlockOnWire
import Coap.Proofs.DownloadSoundness
import Coap.Proofs.UploadSoundness

/-! The numbers that the loops of uploads and downloads calculate with. None of them leaves its range,
although the server chooses the block sizes: the places of an upload stay within its payload, and the
blocks of a download have numbers of 20 bits. -/
namespace Coap

/-! States of a loop -/

/-- A loop that starts in one state is entered in another one after some answers. An answer leads from
one state to the next as the relation says. -/
inductive Enters {σ : Type} (next : σ → Message → σ → Prop) : σ → List Outcome → σ → Prop
  | here (s : σ) : Enters next s [] s
  | again {s t u : σ} {m : Message} {rest : List Outcome} :
      next s m t → Enters next t rest u → Enters next s (.ok m :: rest) u

/-- An activity that goes round a loop: every turn is that of a state in which the loop is entered, and
an answer leads to another request only if it leads to another state. -/
structure GoesRound {σ ρ : Type} (turn : σ → Turn σ ρ) (resume : σ → Outcome → Stride σ ρ)
    (next : σ → Message → σ → Prop) : Prop where
  asks : ∀ {s t : σ} {r : Message}, turn s = .ask r t → t = s
  forth : ∀ {s t : σ} {m : Message}, next s m t →
    (∃ r, turn s = .ask r s) ∧ (resume s (.ok m)).turn = turn t
  back : ∀ {s t : σ} {r r' : Message} {answer : Outcome}, turn s = .ask r s →
    (resume s answer).turn = .ask r' t →
      ∃ m, answer = .ok m ∧ next s m t

section Loop

variable {σ ρ : Type} {turn : σ → Turn σ ρ} {resume : σ → Outcome → Stride σ ρ}
  {next : σ → Message → σ → Prop} {s u : σ} {answers : List Outcome} {x : Stride σ ρ}

/-- What each answer keeps holds whenever the loop is entered. -/
theorem Enters.keeps {P : σ → Prop} (hkeeps : ∀ s m t, P s → next s m t → P t)
    (h : Enters next s answers u) (hs : P s) : P u := by
  induction h with
  | here s => exact hs
  | again hnext _ ih => exact ih (hkeeps _ _ _ hs hnext)

theorem GoesRound.turnAfter_of_enters (hround : GoesRound turn resume next)
    (h : Enters next s answers u) (hx : x.turn = turn s) : x.turnAfter resume answers = turn u := by
  induction h generalizing x with
  | here s => exact hx
  | again hnext _ ih =>
    obtain ⟨⟨r, hask⟩, hresume⟩ := hround.forth hnext
    rw [Stride.turnAfter_of_ask_cons (hx.trans hask)]
    exact ih hresume

/-- Every request is made in a state in which the loop is entered. -/
theorem GoesRound.enters_of_ask (hround : GoesRound turn resume next) (hx : x.turn = turn s)
    {r : Message} (h : x.turnAfter resume answers = .ask r u) : Enters next s answers u := by
  induction answers generalizing s x with
  | nil =>
    have hask : turn s = .ask r u := hx.symm.trans h
    rw [hround.asks hask]
    exact .here s
  | cons answer rest ih =>
    cases hturn : turn s with
    | finish result =>
      rw [Stride.turnAfter_of_finish (hx.trans hturn)] at h
      cases h
    | ask q t =>
      obtain rfl := hround.asks hturn
      rw [Stride.turnAfter_of_ask_cons (hx.trans hturn)] at h
      -- The rest of the answers is looked at only if this one leads to another request.
      cases hresume : (resume t answer).turn with
      | finish result =>
        rw [Stride.turnAfter_of_finish hresume] at h
        cases h
      | ask q' t' =>
        obtain ⟨m, rfl, hnext⟩ := hround.back hturn hresume
        exact .again hnext (ih (hround.forth hnext).2 h)

end Loop

namespace Upload

/-- An upload goes on to its next block after a success, unless the answer is to the last one. -/
def GoesOn (u : Upload) (m : Message) (v : Upload) : Prop :=
  (∃ r, u.request = .ok r) ∧ m.code.isSuccess = true ∧ u.more = true ∧ v = u.next m

theorem turn_eq_ask_iff {u v : Upload} {r : Message} :
    u.turn = .ask r v ↔ u.request = .ok r ∧ v = u := by
  unfold turn
  cases u.request <;> simp [eq_comm]

theorem goesRound : GoesRound turn resume GoesOn where
  asks h := (turn_eq_ask_iff.mp h).2
  forth := by
    rintro u v m ⟨⟨r, hr⟩, hsuccess, hmore, rfl⟩
    refine ⟨⟨r, turn_of_request hr⟩, ?_⟩
    rw [resume_turn, if_pos ⟨hsuccess, hmore⟩]
  back := by
    intro u v r r' answer hask h
    cases answer with
    | error e => cases h
    | ok m =>
      rw [resume_turn] at h
      split at h
      · next hgoes =>
        obtain ⟨hrequest, -⟩ := turn_eq_ask_iff.mp hask
        obtain ⟨-, rfl⟩ := turn_eq_ask_iff.mp h
        exact ⟨m, rfl, ⟨r, hrequest⟩, hgoes.1, hgoes.2, rfl⟩
      · cases h

/-- What an upload calculates for one block: where the block begins and ends, and its number. -/
structure Exact (u : Upload) : Prop where
  sum : u.offset + u.size.bytes < UInt32.size
  ordered : u.offset ≤ u.stop
  within : u.stop ≤ u.payload.size
  dvd : u.size.bytes ∣ u.offset
  fits : u.offset / u.size.bytes < UInt32.size
  number : u.block.number.toNat = u.offset / u.size.bytes

theorem Aligned.exact {u : Upload} (h : u.Aligned) : u.Exact where
  sum :=
    calc u.offset + u.size.bytes
        ≤ (Block.maxNumber + 1) * 1024 + 1024 :=
          Nat.add_le_add (Nat.le_trans h.within h.fits) u.size.bytes_le
      _ < UInt32.size := by decide
  ordered := offset_le_stop h
  within := u.stop_le
  dvd := h.dvd
  fits := number_lt h
  number := number_eq h

theorem aligned_of_enters {u v : Upload} {answers : List Outcome} (ha : u.Aligned)
    (h : Enters GoesOn u answers v) : v.Aligned := by
  refine h.keeps (P := Aligned) ?_ ha
  rintro s m t hs ⟨-, -, hmore, rfl⟩
  exact next_aligned hs hmore m

end Upload

namespace Download

/-- A download goes on after a success that carries a block at the end of the bytes so far, if the
latest block has announced more. -/
def GoesOn (d : Download) (m : Message) (e : Download) : Prop :=
  (∃ r, d.request = .ok r) ∧ d.block.more = true ∧ m.code.isSuccess = true ∧
    ∃ b, m.responseBlock = .ok b ∧ b.offset = d.buffer.size ∧ e = d.accept m b

theorem turn_eq_ask_iff {d e : Download} {r : Message} :
    d.turn = .ask r e ↔ d.block.more = true ∧ d.request = .ok r ∧ e = d := by
  unfold turn
  cases d.block.more <;> cases d.request <;> simp [eq_comm]

theorem goesRound : GoesRound turn resume GoesOn where
  asks h := (turn_eq_ask_iff.mp h).2.2
  forth := by
    rintro d e m ⟨⟨r, hr⟩, hmore, hsuccess, b, hb, hplace, rfl⟩
    exact ⟨⟨r, turn_of_request hmore hr⟩, resume_of_accepted hsuccess hb hplace⟩
  back := by
    intro d e r r' answer hask h
    obtain ⟨hmore, hrequest, -⟩ := turn_eq_ask_iff.mp hask
    cases answer with
    | error e => cases h
    | ok m =>
      cases hsuccess : m.code.isSuccess with
      | false =>
        rw [resume_of_rejection hsuccess] at h
        cases h
      | true =>
        cases hb : m.responseBlock with
        | error e =>
          rw [resume_of_unreadable hsuccess hb] at h
          cases h
        | ok b =>
          by_cases hplace : b.offset = d.buffer.size
          · rw [resume_of_accepted hsuccess hb hplace] at h
            obtain ⟨-, -, rfl⟩ := turn_eq_ask_iff.mp h
            exact ⟨m, rfl, ⟨r, hrequest⟩, hmore, hsuccess, b, hb, hplace, rfl⟩
          · rw [resume_of_misplaced hsuccess hb hplace] at h
            cases h

/-- What a download calculates from the latest block: the number of the next one, and its own place.
Only if the latest number was the last one of 20 bits, the next block cannot be asked for. -/
structure Exact (d : Download) : Prop where
  number : d.next.number.toNat = d.block.number.toNat + 1
  place : d.block.offset < 2 ^ 30
  unreachable : ∀ e, d.next.encode = .error e ↔
    d.next.number.toNat = 2 ^ 20 ∧ e = .numberOutOfRange d.next.number

theorem exact_of_number {d : Download} (h : d.block.number.toNat ≤ Block.maxNumber) : d.Exact := by
  have hnumber := next_number h
  refine ⟨hnumber, Block.offset_lt h, ?_⟩
  intro e
  have hmax : Block.maxNumber + 1 = 2 ^ 20 := rfl
  rcases Nat.lt_or_ge Block.maxNumber d.next.number.toNat with hlarge | hfits
  · -- The number before this one has 20 bits, so that this is the first one that has more.
    have hfirst : d.next.number.toNat = 2 ^ 20 := by omega
    rw [Block.encode_of_lt hlarge]
    simp [hfirst, eq_comm]
  · rw [Block.encode_of_le hfits]
    refine iff_of_false nofun ?_
    rintro ⟨hfirst, -⟩
    omega

theorem number_le_of_enters {d e : Download} {answers : List Outcome}
    (hd : d.block.number.toNat ≤ Block.maxNumber) (h : Enters GoesOn d answers e) :
    e.block.number.toNat ≤ Block.maxNumber := by
  refine h.keeps (P := fun d => d.block.number.toNat ≤ Block.maxNumber) ?_ hd
  rintro s m t - ⟨-, -, -, b, hb, -, rfl⟩
  exact Message.number_le_of_responseBlock hb

end Download

/-- Nothing that the loops of uploads and downloads calculate leaves its range, whatever the payload,
the block size and the answers. An upload that has numbers for its blocks can announce its size; each
block lies within the payload, at a multiple of its size, and its number is not cut off. A download
never comes to a number that 32 bits cannot hold, nor to a place beyond 2 ^ 30; the only number that
it cannot ask for is 2 ^ 20. -/
theorem block_arithmetic_is_exact (template : Message) :
    (∀ (payload : ByteArray) (size : BlockSize),
      (payload.size - 1) / size.bytes ≤ Block.maxNumber →
      let u : Upload := { template, payload, size, offset := 0 }
      let s : Stride Upload Outcome := { turn := Upload.start template payload size }
      payload.size < UInt32.size ∧ s.turn = u.turn ∧ ∀ answers,
        (∀ v, Enters Upload.GoesOn u answers v →
          s.turnAfter Upload.resume answers = v.turn ∧ v.Exact) ∧
        ∀ r v, s.turnAfter Upload.resume answers = .ask r v → Enters Upload.GoesOn u answers v) ∧
    (∀ (first : Message) (b : Block), first.responseBlock = .ok b →
      let d : Download :=
        { template, announced := first.size2Value.map UInt32.toNat, buffer := first.payload, block := b }
      let s := Download.start template first
      s.turn = d.turn ∧ ∀ answers,
        (∀ e, Enters Download.GoesOn d answers e →
          s.turnAfter Download.resume answers = e.turn ∧ e.Exact) ∧
        ∀ r e, s.turnAfter Download.resume answers = .ask r e → Enters Download.GoesOn d answers e) ∧
    ∀ (answer : Message) (b : Block), answer.responseBlock = .ok b → b.offset < 2 ^ 30 := by
  refine ⟨?_, ?_, ?_⟩
  · intro payload size hnumbered u s
    have hturn : s.turn = u.turn := Upload.start_of_numbered template hnumbered
    have haligned : u.Aligned := Upload.aligned_first template hnumbered
    refine ⟨Upload.size_lt_of_numbered hnumbered, hturn, fun answers => ⟨fun v h => ?_, fun r v h => ?_⟩⟩
    · exact ⟨Upload.goesRound.turnAfter_of_enters h hturn, (Upload.aligned_of_enters haligned h).exact⟩
    · exact Upload.goesRound.enters_of_ask hturn h
  · intro first b hb d s
    have hturn : s.turn = d.turn := Download.turn_of_start hb template
    have hnumber : d.block.number.toNat ≤ Block.maxNumber := Message.number_le_of_responseBlock hb
    refine ⟨hturn, fun answers => ⟨fun e h => ?_, fun r e h => ?_⟩⟩
    · exact ⟨Download.goesRound.turnAfter_of_enters h hturn,
        Download.exact_of_number (Download.number_le_of_enters hnumber h)⟩
    · exact Download.goesRound.enters_of_ask hturn h
  · intro answer b hb
    exact Block.offset_lt (Message.number_le_of_responseBlock hb)

/-- An answer that asks for smaller blocks: the second block has 16 bytes where the first one had 32, and
it counts as the third one. -/
theorem upload_of_smaller_blocks_is_exact :
    let template : Message := { type := .confirmable, code := .request .put }
    let u : Upload := { template, payload := ⟨Array.replicate 40 7⟩, size := .s32, offset := 0 }
    let answer : Message :=
      { type := .acknowledgement, code := .response .continue, options := [.block1 0] }
    let v := u.next answer
    Enters Upload.GoesOn u [.ok answer] v ∧ v.Exact ∧
      v.size = .s16 ∧ v.offset = 32 ∧ v.stop = 40 ∧ v.block.number.toNat = 2 := by
  intro template u answer v
  have hrequest : ∃ r, u.request = .ok r := by
    unfold Upload.request
    rw [Block.encode_of_le (by decide)]
    exact ⟨_, rfl⟩
  have hgoes : Upload.GoesOn u answer v := ⟨hrequest, rfl, rfl, rfl⟩
  have henters : Enters Upload.GoesOn u [.ok answer] v := .again hgoes (.here v)
  have hnumbered : (u.payload.size - 1) / u.size.bytes ≤ Block.maxNumber := by decide
  obtain ⟨-, -, hloop⟩ := (block_arithmetic_is_exact template).1 u.payload u.size hnumbered
  obtain ⟨-, hexact⟩ := (hloop [.ok answer]).1 v henters
  have hnumber : v.block.number.toNat = 32 / 16 := hexact.number
  exact ⟨henters, hexact, rfl, rfl, rfl, hnumber⟩

/-- After the last block that has a number, which may be the first one, there is nothing to ask for. -/
example :
    let template : Message := { type := .confirmable, code := .request .get }
    let first : Message :=
      { type := .acknowledgement, code := .response .content, options := [.block2 0xfffff8] }
    ((Download.start template first).run Download.resume []).result =
      some (.error (.protocolViolation (.unreachableBlock (.numberOutOfRange 0x100000)))) := rfl

end Coap
