import Coap.Wire.Integer
import Mathlib.Data.Nat.Digits.Lemmas

/-! Byte strings as the digits of a number in base 256. The shortest form of a number is the string
without zeros in front, and it is the only one of its length. -/
namespace Coap.Wire

/-- The bytes as digits, the lowest first. -/
def digits (bytes : ByteArray) : List Nat := (bytes.data.toList.map UInt8.toNat).reverse

/-- The byte string without the zeros in front. -/
def strip (bytes : ByteArray) : ByteArray := ⟨(bytes.data.toList.dropWhile (· == 0)).toArray⟩

theorem length_digits (bytes : ByteArray) : (digits bytes).length = bytes.size := by
  rw [digits, List.length_reverse, List.length_map, Array.length_toList]
  rfl

theorem digits_lt {bytes : ByteArray} {d : Nat} (h : d ∈ digits bytes) : d < 256 := by
  obtain ⟨b, -, rfl⟩ := List.mem_map.mp (List.mem_reverse.mp h)
  exact b.toNat_lt

theorem digits_injective {b c : ByteArray} (h : digits b = digits c) : b = c := by
  have hlist : b.data.toList = c.data.toList :=
    List.map_injective_iff.mpr (fun _ _ => UInt8.toNat_inj.mp) (List.reverse_injective h)
  exact ByteArray.ext (Array.toList_inj.mp hlist)

theorem value_eq_ofDigits (bytes : ByteArray) : value bytes = Nat.ofDigits 256 (digits bytes) := by
  rw [Nat.ofDigits_eq_foldr, digits, List.foldr_reverse, List.foldl_map, value]
  congr 1
  funext n b
  rw [Nat.mul_comm n 256, Nat.add_comm]
  rfl

theorem value_lt (bytes : ByteArray) : value bytes < 256 ^ bytes.size := by
  rw [value_eq_ofDigits, ← length_digits]
  exact Nat.ofDigits_lt_base_pow_length (by decide) fun _ => digits_lt

/-- Among byte strings of one length the value tells which it is. -/
theorem eq_of_value_eq {b c : ByteArray} (hsize : b.size = c.size) (h : value b = value c) :
    b = c := by
  rw [← length_digits, ← length_digits] at hsize
  rw [value_eq_ofDigits, value_eq_ofDigits] at h
  exact digits_injective (Nat.ofDigits_inj_of_len_eq (by decide) hsize (fun _ => digits_lt)
    (fun _ => digits_lt) h)

theorem value_strip (bytes : ByteArray) : value (strip bytes) = value bytes := by
  have hlist (l : List UInt8) : (l.dropWhile (· == 0)).foldl (fun n b => n * 256 + b.toNat) 0 =
      l.foldl (fun n b => n * 256 + b.toNat) 0 := by
    induction l with
    | nil => rfl
    | cons b l ih =>
      rw [List.dropWhile_cons]
      split
      · next hb =>
        rw [eq_of_beq hb]
        exact ih
      · rfl
  exact hlist bytes.data.toList

theorem size_strip_le (bytes : ByteArray) : (strip bytes).size ≤ bytes.size :=
  (List.dropWhile_sublist (l := bytes.data.toList) _).length_le

theorem strip_of_size_eq {bytes : ByteArray} (h : (strip bytes).size = bytes.size) :
    strip bytes = bytes := by
  have hsuffix := List.dropWhile_suffix (l := bytes.data.toList) (· == 0)
  exact ByteArray.ext (Array.toList_inj.mp (hsuffix.eq_of_length h))

theorem strip_of_head_ne {bytes : ByteArray} (h : bytes.data.toList.head? ≠ some 0) :
    strip bytes = bytes := by
  have hlist : bytes.data.toList.dropWhile (· == 0) = bytes.data.toList := by
    cases hl : bytes.data.toList with
    | nil => rfl
    | cons b l =>
      rw [hl] at h
      have hb : ¬ (b == 0) = true := fun he => h (congrArg some (eq_of_beq he))
      exact List.dropWhile_cons_of_neg hb
  exact ByteArray.ext (Array.toList_inj.mp hlist)

/-- Without the zeros in front a byte string is its value written in base 256. -/
theorem digits_strip (bytes : ByteArray) : digits (strip bytes) = Nat.digits 256 (value bytes) := by
  rw [← value_strip, value_eq_ofDigits, Nat.digits_ofDigits 256 (by decide) _ fun _ => digits_lt]
  -- The highest digit is the first byte that has not been dropped.
  intro hne
  have hdrop : bytes.data.toList.dropWhile (· == 0) ≠ [] := by
    intro hnil
    rw [digits, strip, hnil] at hne
    exact hne rfl
  have hfirst := List.head_dropWhile_not (· == 0) hdrop
  have hlast : (digits (strip bytes)).getLast hne =
      ((bytes.data.toList.dropWhile (· == 0)).head hdrop).toNat :=
    (List.getLast_reverse hne).trans (List.head_map _)
  rw [hlast]
  exact fun hzero => beq_eq_false_iff_ne.mp hfirst (UInt8.toNat_inj.mp hzero)

theorem strip_eq_strip_iff {b c : ByteArray} : strip b = strip c ↔ value b = value c := by
  constructor
  · intro h
    rw [← value_strip b, h, value_strip]
  · intro h
    apply digits_injective
    rw [digits_strip, digits_strip, h]

/-- No other string with the same value is as short. -/
theorem strip_shortest {b c : ByteArray} (h : value c = value b) :
    (strip b).size ≤ c.size ∧ (c.size = (strip b).size → c = strip b) := by
  rw [← strip_eq_strip_iff.mpr h]
  exact ⟨size_strip_le c, fun hsize => (strip_of_size_eq hsize.symm).symm⟩

theorem shortest_eq_strip_fourBytes (n : UInt32) : shortest n = strip ⟨(fourBytes n).toArray⟩ := rfl

theorem value_fourBytes (n : UInt32) : value ⟨(fourBytes n).toArray⟩ = n.toNat := by
  have hn := n.toNat_lt
  simp only [value, fourBytes, List.foldl_cons, List.foldl_nil, UInt32.toNat_toUInt8,
    UInt32.toNat_shiftRight, UInt32.reduceToNat, Nat.reduceMod, Nat.shiftRight_eq_div_pow]
  omega

@[simp] theorem value_shortest (n : UInt32) : value (shortest n) = n.toNat := by
  rw [shortest_eq_strip_fourBytes, value_strip, value_fourBytes]

theorem shortest_eq_strip {n : UInt32} {bytes : ByteArray} (h : value bytes = n.toNat) :
    shortest n = strip bytes := by
  rw [shortest_eq_strip_fourBytes, strip_eq_strip_iff, value_fourBytes, h]

theorem shortest_size_le_iff {n : UInt32} {k : Nat} :
    (shortest n).size ≤ k ↔ n.toNat < 256 ^ k := by
  rw [← length_digits, shortest_eq_strip_fourBytes, digits_strip, value_fourBytes]
  exact Nat.digits_length_le_iff (by decide) _

theorem shortest_size_pos_iff {n : UInt32} : 0 < (shortest n).size ↔ 0 < n.toNat := by
  have h := shortest_size_le_iff (n := n) (k := 0)
  omega

@[simp] theorem toUInt32_shortest (n : UInt32) : toUInt32 (shortest n) = n := by
  rw [toUInt32, value_shortest, UInt32.ofNat_toNat]

@[simp] theorem toUInt16_shortest (n : UInt16) : toUInt16 (shortest n.toUInt32) = n := by
  rw [toUInt16, value_shortest, UInt16.toNat_toUInt32, UInt16.ofNat_toNat]

@[simp] theorem toUInt8_shortest (n : UInt8) : toUInt8 (shortest n.toUInt32) = n := by
  rw [toUInt8, value_shortest, UInt8.toNat_toUInt32, UInt8.ofNat_toNat]

theorem toNat_toUInt32 {bytes : ByteArray} (h : bytes.size ≤ 4) :
    (toUInt32 bytes).toNat = value bytes :=
  UInt32.toNat_ofNat_of_lt' (lt_of_lt_of_le (value_lt bytes) (Nat.pow_le_pow_right (by decide) h))

theorem toNat_toUInt16 {bytes : ByteArray} (h : bytes.size ≤ 2) :
    (toUInt16 bytes).toNat = value bytes :=
  UInt16.toNat_ofNat_of_lt' (lt_of_lt_of_le (value_lt bytes) (Nat.pow_le_pow_right (by decide) h))

theorem toNat_toUInt8 {bytes : ByteArray} (h : bytes.size ≤ 1) :
    (toUInt8 bytes).toNat = value bytes :=
  UInt8.toNat_ofNat_of_lt' (lt_of_lt_of_le (value_lt bytes) (Nat.pow_le_pow_right (by decide) h))

/-! Words of a fixed width: reading is a fold of shifts, and writing drops whole bytes of leading
zeros. -/

/-- In a word of any width each byte is shifted in from the right; of the value as much is left as
fits. -/
theorem ofNat_value_eq_foldl (w : Nat) (bytes : ByteArray) :
    BitVec.ofNat w (value bytes) = bytes.data.toList.foldl
      (fun (n : BitVec w) (b : UInt8) => n <<< 8 ||| b.toBitVec.setWidth w) 0 := by
  have hstep (n : Nat) (b : UInt8) : BitVec.ofNat w (n * 256 + b.toNat) =
      BitVec.ofNat w n <<< 8 ||| b.toBitVec.setWidth w := by
    -- The shift leaves the low eight bits free, so that the sum is a disjunction.
    have hor : n * 256 + b.toNat = n <<< 8 ||| b.toNat := by
      rw [Nat.shiftLeft_eq, Nat.mul_comm]
      exact Nat.two_pow_add_eq_or_of_lt b.toNat_lt n
    apply BitVec.eq_of_toNat_eq
    rw [hor, BitVec.toNat_ofNat, Nat.or_mod_two_pow, BitVec.toNat_or, BitVec.toNat_shiftLeft,
      BitVec.toNat_ofNat, BitVec.toNat_setWidth, Nat.shiftLeft_eq, Nat.shiftLeft_eq,
      Nat.mod_mul_mod]
    rfl
  have hlist (l : List UInt8) (n : Nat) :
      BitVec.ofNat w (l.foldl (fun n b => n * 256 + b.toNat) n) =
        l.foldl (fun (n : BitVec w) (b : UInt8) => n <<< 8 ||| b.toBitVec.setWidth w)
          (BitVec.ofNat w n) := by
    induction l generalizing n with
    | nil => rfl
    | cons b l ih =>
      rw [List.foldl_cons, List.foldl_cons, ← hstep]
      exact ih _
  exact hlist bytes.data.toList 0

theorem lt_two_pow_iff_clz {n : UInt32} {k : Nat} :
    n.toNat < 2 ^ k ↔ 32 - n.toBitVec.clz.toNat ≤ k := by
  constructor
  · intro h
    by_cases hzero : n.toBitVec = 0
    · rw [BitVec.clz_eq_iff_eq_zero.mpr hzero]
      exact Nat.zero_le k
    · have hle := BitVec.two_pow_sub_clz_le_toNat_of_ne_zero (by decide) hzero
      have hlt := (Nat.pow_lt_pow_iff_right (by decide)).mp (lt_of_le_of_lt hle h)
      omega
  · intro h
    exact lt_of_lt_of_le BitVec.toNat_lt_two_pow_sub_clz (Nat.pow_le_pow_right (by decide) h)

/-- A byte is dropped for every eight zeros in front of the highest bit. -/
theorem shortest_eq_drop (n : UInt32) :
    (shortest n).data.toList = (fourBytes n).drop (n.toBitVec.clz.toNat / 8) := by
  have hsuffix : (shortest n).data.toList <:+ fourBytes n := List.dropWhile_suffix _
  have hsize (k : Nat) : (shortest n).size ≤ k ↔ 32 - n.toBitVec.clz.toNat ≤ 8 * k := by
    rw [shortest_size_le_iff, ← lt_two_pow_iff_clz, Nat.pow_mul]
  have hdropped : 4 - (shortest n).size = n.toBitVec.clz.toNat / 8 := by
    -- One byte less than there are would be too few.
    have hle : n.toBitVec.clz.toNat ≤ 32 := BitVec.clz_le
    have hfull := (hsize (shortest n).size).mp le_rfl
    have hless := mt (hsize ((shortest n).size - 1)).mpr
    omega
  rw [← hdropped]
  exact List.suffix_iff_eq_drop.mp hsuffix

end Coap.Wire
