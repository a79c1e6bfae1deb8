import Coap.Block

/-! Block sizes divide one another, and decoding a block option is the inverse of encoding one. -/
namespace Coap

namespace BlockSize

theorem exponent_lt (s : BlockSize) : s.exponent < 7 := by
  cases s <;> decide

theorem sixteen_le_bytes (s : BlockSize) : 16 ≤ s.bytes := by
  cases s <;> decide

theorem bytes_le (s : BlockSize) : s.bytes ≤ 1024 := by
  cases s <;> decide

theorem bytes_pos (s : BlockSize) : 0 < s.bytes := by
  have h := s.sixteen_le_bytes
  omega

theorem bytes_le_bytes_iff (a b : BlockSize) : a.bytes ≤ b.bytes ↔ a.exponent ≤ b.exponent := by
  unfold bytes
  rw [Nat.shiftLeft_eq, Nat.shiftLeft_eq, Nat.mul_le_mul_left_iff (by decide)]
  exact Nat.pow_le_pow_iff_right (by decide)

theorem bytes_dvd_bytes {a b : BlockSize} (h : a.bytes ≤ b.bytes) : a.bytes ∣ b.bytes := by
  have he : a.exponent ≤ b.exponent := (bytes_le_bytes_iff a b).mp h
  unfold bytes
  rw [Nat.shiftLeft_eq, Nat.shiftLeft_eq]
  exact Nat.mul_dvd_mul_left 16 (Nat.pow_dvd_pow 2 he)

theorem ofExponent_exponent (s : BlockSize) : ofExponent s.exponent = .ok s := by
  cases s <;> rfl

theorem exponent_of_ofExponent {e : Nat} {s : BlockSize} (h : ofExponent e = .ok s) :
    s.exponent = e := by
  unfold ofExponent at h
  split at h
  · next found =>
    cases h
    simpa using List.find?_some found
  · cases h

end BlockSize

namespace Block

/-- The integer that stands for a block whose number fits. -/
def value (b : Block) : Nat := b.number.toNat * 16 + b.more.toNat * 8 + b.size.exponent

theorem value_le {b : Block} (h : b.number.toNat ≤ maxNumber) : b.value ≤ maxValue := by
  have he := b.size.exponent_lt
  have hm := Bool.toNat_le b.more
  unfold value maxValue
  unfold maxNumber at h
  omega

theorem encode_of_le {b : Block} (h : b.number.toNat ≤ maxNumber) :
    b.encode = .ok (UInt32.ofNat b.value) := by
  unfold encode
  rw [if_neg (by omega)]
  rfl

theorem encode_of_lt {b : Block} (h : maxNumber < b.number.toNat) :
    b.encode = .error (.numberOutOfRange b.number) := by
  unfold encode
  rw [if_pos h]

theorem toNat_value {b : Block} (h : b.number.toNat ≤ maxNumber) :
    (UInt32.ofNat b.value).toNat = b.value := by
  have hv := value_le h
  unfold maxValue at hv
  rw [UInt32.toNat_ofNat']
  exact Nat.mod_eq_of_lt (by omega)

theorem number_le_of_encode {b : Block} {v : UInt32} (h : b.encode = .ok v) :
    b.number.toNat ≤ maxNumber := by
  apply Nat.le_of_not_lt
  intro hn
  rw [encode_of_lt hn] at h
  cases h

theorem toNat_of_encode {b : Block} {v : UInt32} (h : b.encode = .ok v) : v.toNat = b.value := by
  have hn := number_le_of_encode h
  rw [encode_of_le hn] at h
  cases h
  exact toNat_value hn

/-- What stands for a block fits into three bytes. -/
theorem le_maxValue_of_encode {b : Block} {v : UInt32} (h : b.encode = .ok v) :
    v.toNat ≤ maxValue := by
  rw [toNat_of_encode h]
  exact value_le (number_le_of_encode h)

theorem decode_of_encode {b : Block} {v : UInt32} (h : b.encode = .ok v) : decode v = .ok b := by
  have hn := number_le_of_encode h
  rw [encode_of_le hn] at h
  cases h
  have hv := value_le hn
  have he := b.size.exponent_lt
  have hm := Bool.toNat_le b.more
  -- Number, flag and exponent are the digits of the value, so that divisions find them again.
  have hmod : b.value % 8 = b.size.exponent := by unfold value; omega
  have hdiv : b.value / 16 = b.number.toNat := by unfold value; omega
  have hbit : b.value / 8 % 2 = b.more.toNat := by unfold value; omega
  unfold decode
  rw [toNat_value hn, if_neg (by omega), hmod, BlockSize.ofExponent_exponent, hdiv, hbit]
  obtain ⟨number, size, more⟩ := b
  cases more <;> simp [bind, Except.bind, pure, Except.pure]

theorem encode_of_decode {b : Block} {v : UInt32} (h : decode v = .ok b) : b.encode = .ok v := by
  unfold decode at h
  split at h
  · cases h
  · next hv =>
    cases hs : BlockSize.ofExponent (v.toNat % 8) with
    | error e => rw [hs] at h; cases h
    | ok size =>
      rw [hs] at h
      cases h
      have he := BlockSize.exponent_of_ofExponent hs
      have hlt := v.toNat_lt
      have hn : (UInt32.ofNat (v.toNat / 16)).toNat = v.toNat / 16 := by
        rw [UInt32.toNat_ofNat']
        exact Nat.mod_eq_of_lt (by omega)
      unfold maxValue at hv
      have hle : (UInt32.ofNat (v.toNat / 16)).toNat ≤ maxNumber := by
        rw [hn]; unfold maxNumber; omega
      rw [encode_of_le hle]
      congr 1
      apply UInt32.toNat_inj.mp
      rw [toNat_value hle]
      unfold value
      rw [hn, he]
      by_cases hbit : v.toNat / 8 % 2 = 1
      · simp only [hbit, decide_true, Bool.toNat_true]; omega
      · simp only [hbit, decide_false, Bool.toNat_false]; omega

theorem number_le_of_decode {b : Block} {v : UInt32} (h : decode v = .ok b) :
    b.number.toNat ≤ maxNumber :=
  number_le_of_encode (encode_of_decode h)

end Block

end Coap
