import Coap.Proofs.MessageValidity

/-! Option values read and written again. Whatever is read can be written, a Hop-Limit of zero
apart; what is written is read as it was, except for a precondition on an empty tag; and writing
what has been read takes the zeros off the front of its integers. -/
namespace Coap.MessageOption

/-- The only kind of integer that must not be empty is a Hop-Limit. -/
theorem minLength_le_of_integer? {o : MessageOption} {n : UInt32} {k : OptionKind}
    (hn : o.integer? = some n) (hk : o.kind = some k) (hzero : o ≠ hopLimit 0) :
    k.minLength ≤ o.bytes.size := by
  cases o with
  | hopLimit limit =>
    cases hk
    have hpos : 0 < limit.toNat := by
      apply Nat.pos_of_ne_zero
      intro h
      exact hzero (congrArg hopLimit (UInt16.toNat_inj.mp h))
    exact Wire.shortest_size_pos_iff.mpr hpos
  | observe | maxAge | block1 | block2 | size1 | size2 | uriPort | contentFormat | accept
  | noResponse =>
    cases hk
    exact Nat.zero_le _
  | _ => cases hn

section

variable {number : UInt16} {value : ByteArray} {o : MessageOption}

/-- Integers are written without the zeros in front, all other values as they have been read. -/
theorem Reads.bytes_eq_strip {n : UInt32} (h : Reads number value o) (hn : o.integer? = some n) :
    o.bytes = Wire.strip value := by
  rw [bytes_of_integer? hn, Wire.shortest_eq_strip (h.integer n hn)]

theorem Reads.size_bytes_le (h : Reads number value o) : o.bytes.size ≤ value.size := by
  cases hn : o.integer? with
  | none => rw [h.bytes hn]
  | some n =>
    rw [h.bytes_eq_strip hn]
    exact Wire.size_strip_le value

theorem Reads.encode_eq_ok (h : Reads number value o) (hzero : o ≠ hopLimit 0) :
    o.encode = .ok o.bytes := by
  refine encode_eq_ok_iff.mpr ⟨rfl, fun k hk => ?_⟩
  obtain ⟨hmin, hmax⟩ := h.length k hk
  have hleast : k.minLength ≤ o.bytes.size := by
    cases hn : o.integer? with
    | none => rwa [h.bytes hn]
    | some n => exact minLength_le_of_integer? hn hk hzero
  exact ⟨hleast, h.size_bytes_le.trans hmax⟩

theorem Reads.encodes_iff (h : Reads number value o) : o.Encodes ↔ o ≠ hopLimit 0 := by
  constructor
  · rintro ⟨wire, hw⟩ rfl
    have hshort : (hopLimit 0).encode = .error .tooShort := rfl
    cases hshort.symm.trans hw
  · intro hzero
    exact ⟨o.bytes, h.encode_eq_ok hzero⟩

/-- A Hop-Limit of zero can be read from one byte string only. -/
theorem decode_eq_hopLimit_zero_iff :
    decode number value = .ok (hopLimit 0) ↔
      number = OptionKind.hopLimit.number ∧ value = ⟨#[0]⟩ := by
  constructor
  · intro h
    have hreads := reads_of_decode h
    obtain ⟨hmin, hmax⟩ := hreads.length .hopLimit (OptionKind.ofNumber?_number .hopLimit)
    have hsize : value.size = 1 := le_antisymm hmax hmin
    exact ⟨hreads.number.symm, Wire.eq_of_value_eq hsize (hreads.integer 0 rfl)⟩
  · rintro ⟨rfl, rfl⟩
    rfl

/-- The one received option that is read but cannot be written: a Hop-Limit of a zero byte. -/
def zeroHopLimit : UInt16 × ByteArray := (OptionKind.hopLimit.number, ⟨#[0]⟩)

theorem encodes_iff_of_decode {received : UInt16 × ByteArray}
    (h : decode received.1 received.2 = .ok o) : o.Encodes ↔ received ≠ zeroHopLimit := by
  have hzero : o = hopLimit 0 ↔ received = zeroHopLimit := by
    rw [Prod.ext_iff, zeroHopLimit, ← decode_eq_hopLimit_zero_iff, h]
    simp
  rw [(reads_of_decode h).encodes_iff, Ne, hzero]

end

/-- Whatever is read is an option of its number, and it can be written again unless it is a
Hop-Limit of zero, so that the options of a received message pass their check exactly if no such
Hop-Limit is among them. -/
theorem accepted_options_encode {received : List (UInt16 × ByteArray)}
    {options : List MessageOption}
    (h : List.Forall₂ (fun r o => decode r.1 r.2 = .ok o) received options) :
    List.Forall₂ (fun r o => o.number = r.1 ∧ (o.Encodes ↔ r ≠ zeroHopLimit)) received options ∧
      (Message.checkOptions options = .ok () ↔ zeroHopLimit ∉ received) := by
  rw [Message.checkOptions_eq_ok_iff]
  induction h with
  | nil => exact ⟨.nil, iff_of_true nofun nofun⟩
  | @cons r o received options hread _ ih =>
    have hencodes := encodes_iff_of_decode hread
    refine ⟨.cons ⟨(reads_of_decode hread).number, hencodes⟩ ih.1, ?_⟩
    rw [List.forall_mem_cons, List.mem_cons, not_or, hencodes, ih.2]
    exact and_congr_left' ne_comm

/-- A sequence number with a zero byte in front can be written again, the Hop-Limit behind it
cannot. -/
theorem padded_sequence_is_accepted :
    decode 6 ⟨#[0, 7]⟩ = .ok (observe 7) ∧ decode 16 ⟨#[0]⟩ = .ok (hopLimit 0) ∧
      (observe 7).number = 6 ∧ (observe 7).Encodes ∧ ¬ (hopLimit 0).Encodes ∧
      Message.checkOptions [observe 7, hopLimit 0] ≠ .ok () := by
  have hsequence : decode 6 ⟨#[0, 7]⟩ = .ok (observe 7) := rfl
  have hhops : decode 16 ⟨#[0]⟩ = .ok (hopLimit 0) := rfl
  have hread : List.Forall₂ (fun (r : UInt16 × ByteArray) o => decode r.1 r.2 = .ok o)
      [(6, ⟨#[0, 7]⟩), zeroHopLimit] [observe 7, hopLimit 0] :=
    .cons hsequence (.cons hhops .nil)
  obtain ⟨hall, hcheck⟩ := accepted_options_encode hread
  obtain ⟨⟨hnumber, hfirst⟩, hrest⟩ := List.forall₂_cons.mp hall
  obtain ⟨⟨-, hsecond⟩, -⟩ := List.forall₂_cons.mp hrest
  exact ⟨hsequence, hhops, hnumber, hfirst.mpr (by decide), fun h => hsecond.mp h rfl,
    fun h => hcheck.mp h (List.mem_cons_of_mem _ List.mem_cons_self)⟩

/-- A Hop-Limit of zero is read from one zero byte, but it has no bytes in its shortest form, which
are too few. -/
theorem zero_hop_limit_is_read_only :
    ¬ ∀ number value o, decode number value = .ok o → o.number = number ∧ o.Encodes := by
  intro h
  have hread : decode 16 ⟨#[0]⟩ = .ok (hopLimit 0) := rfl
  obtain ⟨wire, hw⟩ := (h _ _ _ hread).2
  have hshort : (hopLimit 0).encode = .error .tooShort := rfl
  cases hshort.symm.trans hw

/-- What has been written is read as it was. -/
theorem decode_of_encode {o : MessageOption} {wire : ByteArray} (ht : o.Typed)
    (htag : o ≠ ifMatch (.tag ByteArray.empty)) (h : o.encode = .ok wire) :
    decode o.number wire = .ok o := by
  obtain ⟨rfl, hfits⟩ := encode_eq_ok_iff.mp h
  rw [decode_eq_ok_iff]
  cases hk : o.kind with
  | some k => exact .inr ⟨k, hk, hfits k hk, ofKind_bytes hk ht htag⟩
  | none =>
    cases o with
    | other n value => exact .inl ⟨ht, rfl⟩
    | _ => cases hk

/-- A precondition on the empty tag is written as no bytes, from which one on any representation is
read. -/
theorem decode_of_encode_empty_tag {wire : ByteArray}
    (h : (ifMatch (.tag ByteArray.empty)).encode = .ok wire) :
    decode OptionKind.ifMatch.number wire = .ok (ifMatch .anyRepresentation) := by
  cases h
  rfl

theorem eq_any_of_encode {o : MessageOption} {wire : ByteArray} (ht : o.Typed)
    (hn : o.number = OptionKind.ifMatch.number) (ho : o.encode = .ok wire)
    (htag : (ifMatch (.tag ByteArray.empty)).encode = .ok wire)
    (hne : o ≠ ifMatch (.tag ByteArray.empty)) : o = ifMatch .anyRepresentation := by
  have hread := decode_of_encode ht hne ho
  rw [hn, decode_of_encode_empty_tag htag] at hread
  cases hread
  rfl

/-- Decoding undoes encoding for every option but a precondition on an empty tag. That one shares
its number and its value on the wire with a precondition on any representation, and no other two
options share both. -/
theorem decoding_undoes_encoding {o : MessageOption} {wire : ByteArray} (ht : o.Typed)
    (h : o.encode = .ok wire) :
    (decode o.number wire = .ok o ↔ o ≠ ifMatch (.tag ByteArray.empty)) ∧
    ∀ o' : MessageOption, o'.Typed → o'.number = o.number → o'.encode = .ok wire → o' ≠ o →
      o = ifMatch (.tag ByteArray.empty) ∧ o' = ifMatch .anyRepresentation ∨
      o = ifMatch .anyRepresentation ∧ o' = ifMatch (.tag ByteArray.empty) := by
  refine ⟨⟨?_, fun htag => decode_of_encode ht htag h⟩, ?_⟩
  · rintro hread rfl
    cases (decode_of_encode_empty_tag h).symm.trans hread
  intro o' ht' hn h' hne
  by_cases htag : o = ifMatch (.tag ByteArray.empty)
  · subst htag
    exact .inl ⟨rfl, eq_any_of_encode ht' hn h' h hne⟩
  by_cases htag' : o' = ifMatch (.tag ByteArray.empty)
  · subst htag'
    exact .inr ⟨eq_any_of_encode ht hn.symm h h' (Ne.symm hne), rfl⟩
  · -- Both are what is read from the one value.
    have hread := decode_of_encode ht htag h
    rw [← hn, decode_of_encode ht' htag' h'] at hread
    cases hread
    exact absurd rfl hne

/-- A tag of two bytes is read as it was written. -/
theorem written_tag_is_read :
    (ifMatch (.tag ⟨#[1, 2]⟩)).encode = .ok ⟨#[1, 2]⟩ ∧
      decode OptionKind.ifMatch.number ⟨#[1, 2]⟩ = .ok (ifMatch (.tag ⟨#[1, 2]⟩)) := by
  have hwritten : (ifMatch (.tag ⟨#[1, 2]⟩)).encode = .ok ⟨#[1, 2]⟩ := rfl
  have htyped : (ifMatch (.tag ⟨#[1, 2]⟩)).Typed := trivial
  exact ⟨hwritten, (decoding_undoes_encoding htyped hwritten).1.mpr (by decide)⟩

/-- A precondition on the empty tag is written like one on any representation. -/
theorem empty_tag_is_written_as_any :
    (¬ ∀ o wire, Typed o → o.encode = .ok wire → decode o.number wire = .ok o) ∧
    ¬ ∀ o o' wire, Typed o → Typed o' → o.number = o'.number → o.encode = .ok wire →
      o'.encode = .ok wire → o = o' := by
  have hany : decode OptionKind.ifMatch.number ByteArray.empty = .ok (ifMatch .anyRepresentation) :=
    rfl
  constructor
  · intro h
    have hread := h (ifMatch (.tag ByteArray.empty)) ByteArray.empty trivial rfl
    cases hany.symm.trans hread
  · intro h
    have hsame := h (ifMatch (.tag ByteArray.empty)) (ifMatch .anyRepresentation) ByteArray.empty
      trivial trivial rfl rfl rfl
    cases hsame

/-- To read a value and to write it again brings it into its canonical form: the same option is read
from it, an integer loses the zeros in front of it and is left with its one shortest form, and any
other value stays as it is. -/
theorem reencoding_canonicalises {number : UInt16} {value wire : ByteArray} {o : MessageOption}
    (hread : decode number value = .ok o) (hwritten : o.encode = .ok wire) :
    decode number wire = .ok o ∧ wire.size ≤ value.size ∧
    (o.integer? = none ∨ value.data.toList.head? ≠ some 0 → wire = value) ∧
    ∀ n, o.integer? = some n → wire = Wire.strip value ∧ Wire.value wire = n.toNat ∧
      ∀ bytes, Wire.value bytes = n.toNat →
        wire.size ≤ bytes.size ∧ (bytes.size = wire.size → bytes = wire) := by
  have h := reads_of_decode hread
  -- An option that has been read is one that is read again from what it is written as.
  have hagain := decode_of_encode h.typed h.tagged hwritten
  rw [h.number] at hagain
  obtain ⟨rfl, -⟩ := encode_eq_ok_iff.mp hwritten
  refine ⟨hagain, h.size_bytes_le, ?_, ?_⟩
  · intro hcase
    cases hn : o.integer? with
    | none => exact h.bytes hn
    | some n =>
      rw [h.bytes_eq_strip hn]
      rcases hcase with hnone | hhead
      · cases hnone.symm.trans hn
      · exact Wire.strip_of_head_ne hhead
  · intro n hn
    have hvalue := h.integer n hn
    rw [h.bytes_eq_strip hn, Wire.value_strip]
    refine ⟨rfl, hvalue, fun bytes hbytes => ?_⟩
    exact Wire.strip_shortest (hbytes.trans hvalue.symm)

/-- A block option with a zero byte in front. -/
theorem padded_block_is_canonicalised :
    decode 27 ⟨#[0, 1, 0x2e]⟩ = .ok (block1 0x12e) ∧ (block1 0x12e).encode = .ok ⟨#[1, 0x2e]⟩ ∧
      decode 27 ⟨#[1, 0x2e]⟩ = .ok (block1 0x12e) ∧
      (⟨#[1, 0x2e]⟩ : ByteArray) = Wire.strip ⟨#[0, 1, 0x2e]⟩ := by
  have hread : decode 27 ⟨#[0, 1, 0x2e]⟩ = .ok (block1 0x12e) := rfl
  have hwritten : (block1 0x12e).encode = .ok ⟨#[1, 0x2e]⟩ := rfl
  obtain ⟨hagain, -, -, hinteger⟩ := reencoding_canonicalises hread hwritten
  exact ⟨hread, hwritten, hagain, (hinteger 0x12e rfl).1⟩

end Coap.MessageOption
