import Coap.Proofs.BlockValue
import Coap.Proofs.OptionRoundTrip

/-! Block values on the wire. A block whose number fits into 20 bits is read as it was written, and
at most three bytes always hold a block unless they name the reserved exponent. -/
namespace Coap

theorem BlockSize.ofExponent_eq_error_iff {e : Nat} {cause : BlockError} :
    ofExponent e = .error cause ↔ 7 ≤ e ∧ cause = .reservedExponent := by
  constructor
  · intro h
    -- Every smaller exponent is that of a size.
    have hlarge : 7 ≤ e := by
      by_contra hsmall
      interval_cases e <;> cases h
    unfold ofExponent at h
    split at h
    · cases h
    · cases h
      exact ⟨hlarge, rfl⟩
  · rintro ⟨hlarge, rfl⟩
    cases he : ofExponent e with
    | ok s =>
      have hs := s.exponent_lt
      rw [exponent_of_ofExponent he] at hs
      omega
    | error cause =>
      unfold ofExponent at he
      split at he <;> cases he
      rfl

namespace Block

/-- The number, the flag and the exponent lie side by side in the value. -/
theorem value_eq_bits (b : Block) :
    b.value = b.number.toNat <<< 4 ||| b.more.toNat <<< 3 ||| b.size.exponent := by
  have he : b.size.exponent < 2 ^ 3 := lt_trans b.size.exponent_lt (by decide)
  have hm : b.more.toNat <<< 3 < 2 ^ 4 := by cases b.more <;> decide
  have hsum : b.value = (b.number.toNat <<< 4 + b.more.toNat <<< 3) + b.size.exponent := by
    simp only [value, Nat.shiftLeft_eq]
  have hhigh : b.number.toNat <<< 4 + b.more.toNat <<< 3 =
      (b.number.toNat * 2 + b.more.toNat) <<< 3 := by
    simp only [Nat.shiftLeft_eq]
    omega
  calc b.value
      = (b.number.toNat <<< 4 + b.more.toNat <<< 3) ||| b.size.exponent := by
        rw [hsum, hhigh, Nat.shiftLeft_add_eq_or_of_lt he]
    _ = b.number.toNat <<< 4 ||| b.more.toNat <<< 3 ||| b.size.exponent := by
        rw [Nat.shiftLeft_add_eq_or_of_lt hm]

/-- Among values of three bytes only the reserved exponent cannot be read. -/
theorem decode_eq_error_iff {v : UInt32} {cause : BlockError} (h : v.toNat ≤ maxValue) :
    decode v = .error cause ↔ v &&& 7 = 7 ∧ cause = .reservedExponent := by
  have hlow : v &&& 7 = 7 ↔ 7 ≤ v.toNat % 8 := by
    have hmod : (v &&& 7).toNat = v.toNat % 8 := by
      rw [UInt32.toNat_and]
      exact Nat.and_two_pow_sub_one_eq_mod v.toNat 3
    have hlt : v.toNat % 8 < 8 := Nat.mod_lt _ (by decide)
    rw [← UInt32.toNat_inj, hmod]
    show v.toNat % 8 = 7 ↔ _
    omega
  rw [hlow, ← BlockSize.ofExponent_eq_error_iff]
  unfold decode
  rw [if_neg (Nat.not_lt.mpr h)]
  cases BlockSize.ofExponent (v.toNat % 8) with
  | error e => simp [bind, Except.bind]
  | ok size => exact iff_of_false nofun nofun

theorem offset_lt {b : Block} (h : b.number.toNat ≤ maxNumber) : b.offset < 2 ^ 30 :=
  calc b.offset
      ≤ maxNumber * 1024 := Nat.mul_le_mul h b.size.bytes_le
    _ < 2 ^ 30 := by decide

end Block

namespace MessageOption

/-- The options that carry a block, by their kind and by how they hold its integer. -/
inductive CarriesBlock : OptionKind → (UInt32 → MessageOption) → Prop
  | block1 : CarriesBlock .block1 block1
  | block2 : CarriesBlock .block2 block2

section

variable {k : OptionKind} {carry : UInt32 → MessageOption} {v : UInt32}

theorem CarriesBlock.encode_eq_ok (hc : CarriesBlock k carry) (h : v.toNat ≤ Block.maxValue) :
    (carry v).encode = .ok (Wire.shortest v) ∧ (Wire.shortest v).size ≤ 3 := by
  have hsize : (Wire.shortest v).size ≤ 3 := Wire.shortest_size_le_iff.mpr (Nat.lt_succ_of_le h)
  refine ⟨encode_eq_ok_iff.mpr ?_, hsize⟩
  cases hc with
  | block1 | block2 =>
    refine ⟨rfl, fun k' hk => ?_⟩
    cases hk
    exact ⟨Nat.zero_le _, hsize⟩

/-- A block that can be packed can be sent. -/
theorem CarriesBlock.encodes (hc : CarriesBlock k carry) {b : Block} (h : b.encode = .ok v) :
    (carry v).Encodes :=
  ⟨_, (hc.encode_eq_ok (Block.le_maxValue_of_encode h)).1⟩

theorem CarriesBlock.decode_eq_ok (hc : CarriesBlock k carry) {value : ByteArray}
    (h : value.size ≤ 3) : decode k.number value = .ok (carry (Wire.toUInt32 value)) := by
  refine decode_eq_ok_iff.mpr (.inr ⟨k, OptionKind.ofNumber?_number k, ?_, ?_⟩)
  · cases hc <;> exact ⟨Nat.zero_le _, h⟩
  · cases hc <;> rfl

/-- A block comes back from the bytes of the option that carries it. -/
theorem CarriesBlock.reads_back (hc : CarriesBlock k carry) {b : Block} (h : b.encode = .ok v) :
    ∃ wire, (carry v).encode = .ok wire ∧ wire.size ≤ 3 ∧ decode k.number wire = .ok (carry v) ∧
      Block.decode v = .ok b := by
  obtain ⟨hencode, hsize⟩ := hc.encode_eq_ok (Block.le_maxValue_of_encode h)
  have hread : decode k.number (Wire.shortest v) = .ok (carry v) := by
    rw [hc.decode_eq_ok hsize, Wire.toUInt32_shortest]
  exact ⟨_, hencode, hsize, hread, Block.decode_of_encode h⟩

end

/-- Block values survive the wire in both directions. A block can be packed exactly if its number
has at most 20 bits, and it is read from what is sent for it. Three bytes or less always hold an
integer that is a block unless its low three bits are all set, and the block is packed into that
integer again. -/
theorem block_survives_the_wire {k : OptionKind} {carry : UInt32 → MessageOption}
    (hc : CarriesBlock k carry) :
    (∀ b : Block, ((∃ v, b.encode = .ok v) ↔ b.number.toNat ≤ 2 ^ 20 - 1) ∧
      ∀ v, b.encode = .ok v →
        v.toNat = b.number.toNat <<< 4 ||| b.more.toNat <<< 3 ||| b.size.exponent ∧
        ∃ wire, (carry v).encode = .ok wire ∧ wire.size ≤ 3 ∧ decode k.number wire = .ok (carry v) ∧
          Block.decode v = .ok b) ∧
    ∀ value : ByteArray, value.size ≤ 3 → ∃ v, decode k.number value = .ok (carry v) ∧
      v.toNat = Wire.value value ∧
      (∀ n, Block.decode v ≠ .error (.valueOutOfRange n)) ∧
      ((∃ cause, Block.decode v = .error cause) ↔ v &&& 7 = 7) ∧
      ∀ b, Block.decode v = .ok b → b.encode = .ok v ∧ b.offset < 2 ^ 30 := by
  constructor
  · intro b
    constructor
    · constructor
      · rintro ⟨v, hv⟩
        exact Block.number_le_of_encode hv
      · intro hn
        exact ⟨_, Block.encode_of_le hn⟩
    · intro v hv
      exact ⟨(Block.toNat_of_encode hv).trans b.value_eq_bits, hc.reads_back hv⟩
  -- From bytes: at most three of them cannot hold more than 24 bits.
  · intro value hsize
    have hvalue : (Wire.toUInt32 value).toNat = Wire.value value :=
      Wire.toNat_toUInt32 (hsize.trans (by decide))
    have hmax : (Wire.toUInt32 value).toNat ≤ Block.maxValue := by
      have hlt : Wire.value value < 256 ^ 3 :=
        lt_of_lt_of_le (Wire.value_lt value) (Nat.pow_le_pow_right (by decide) hsize)
      rw [hvalue]
      exact Nat.le_of_lt_succ hlt
    have herror (cause : BlockError) : Block.decode (Wire.toUInt32 value) = .error cause ↔
        Wire.toUInt32 value &&& 7 = 7 ∧ cause = .reservedExponent :=
      Block.decode_eq_error_iff hmax
    refine ⟨_, hc.decode_eq_ok hsize, hvalue, ?_, ?_, ?_⟩
    · intro n hn
      cases ((herror _).mp hn).2
    · constructor
      · rintro ⟨cause, hcause⟩
        exact ((herror cause).mp hcause).1
      · intro hlow
        exact ⟨_, (herror _).mpr ⟨hlow, rfl⟩⟩
    · intro b hb
      exact ⟨Block.encode_of_decode hb, Block.offset_lt (Block.number_le_of_decode hb)⟩

/-- The last block of the largest size in an option for blocks of a response, and three bytes that
name the reserved exponent. -/
theorem last_block_survives :
    (Block.mk 0xfffff .s1024 true).encode = .ok 0xfffffe ∧
      (∃ wire, (block2 0xfffffe).encode = .ok wire ∧ decode 23 wire = .ok (block2 0xfffffe)) ∧
      Block.decode 0xfffffe = .ok ⟨0xfffff, .s1024, true⟩ ∧
      ∃ v, decode 23 ⟨#[0, 1, 7]⟩ = .ok (block2 v) ∧ ∃ cause, Block.decode v = .error cause := by
  obtain ⟨hblocks, hbytes⟩ := block_survives_the_wire .block2
  have hencode : (Block.mk 0xfffff .s1024 true).encode = .ok 0xfffffe := rfl
  obtain ⟨-, wire, hwire, -, hread, hblock⟩ := (hblocks _).2 _ hencode
  obtain ⟨v, hv, hvalue, -, hreserved, -⟩ := hbytes ⟨#[0, 1, 7]⟩ (by decide)
  have hseven : v = 263 := UInt32.toNat_inj.mp hvalue
  subst hseven
  exact ⟨hencode, ⟨wire, hwire, hread⟩, hblock, _, hv, hreserved.mpr (by decide)⟩

end MessageOption

end Coap
