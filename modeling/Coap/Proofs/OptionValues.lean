import Coap.Option.Basic
import Coap.Proofs.WireInteger

/-! What the bytes of an option's value are, kind by kind: which values can be written, and what is
read from bytes of a permitted length. -/
namespace Coap

namespace OptionKind

@[simp] theorem ofNumber?_number (k : OptionKind) : ofNumber? k.number = some k := by
  cases k <;> rfl

theorem number_of_ofNumber? {n : UInt16} {k : OptionKind} (h : ofNumber? n = some k) :
    k.number = n := by
  have hfind : all.find? (fun k => k.number == n) = some k := h
  have hfound := List.find?_some hfind
  exact eq_of_beq hfound

theorem number_ne_of_unregistered {n : UInt16} (h : ofNumber? n = none) (k : OptionKind) :
    n ≠ k.number := by
  rintro rfl
  cases (ofNumber?_number k).symm.trans h

theorem minLength_le_maxLength (k : OptionKind) : k.minLength ≤ k.maxLength := by
  cases k <;> decide

theorem checkLength_eq_ok_iff {k : OptionKind} {length : Nat} :
    k.checkLength length = .ok () ↔ k.minLength ≤ length ∧ length ≤ k.maxLength := by
  unfold checkLength
  split
  · next hshort => exact iff_of_false nofun fun h => absurd h.1 (Nat.not_le.mpr hshort)
  split
  · next hlong => exact iff_of_false nofun fun h => absurd h.2 (Nat.not_le.mpr hlong)
  · next hshort hlong => exact iff_of_true rfl ⟨Nat.not_lt.mp hshort, Nat.not_lt.mp hlong⟩

theorem checkLength_eq_error_iff {k : OptionKind} {length : Nat} {cause : OptionError} :
    k.checkLength length = .error cause ↔
      length < k.minLength ∧ cause = .tooShort ∨ k.maxLength < length ∧ cause = .tooLong := by
  have hbounds := k.minLength_le_maxLength
  unfold checkLength
  split
  · next hshort =>
    have hlong : ¬ k.maxLength < length := by omega
    simp [hshort, hlong, eq_comm]
  split
  · next hshort hlong => simp [hshort, hlong, eq_comm]
  · next hshort hlong => simp [hshort, hlong]

end OptionKind

namespace MessageOption

/-- The option can be put on the wire. -/
def Encodes (o : MessageOption) : Prop := ∃ bytes, o.encode = .ok bytes

/-- The number in an option whose value is an unsigned integer. -/
def integer? : MessageOption → Option UInt32
  | uriPort n => some n.toUInt32
  | contentFormat n => some n.toUInt32
  | accept n => some n.toUInt32
  | hopLimit n => some n.toUInt32
  | noResponse n => some n.toUInt32
  | size1 n => some n
  | size2 n => some n
  | block1 n => some n
  | block2 n => some n
  | maxAge n => some n
  | observe n => some n
  | _ => none

/-- Every number of the registry is held by the constructor of its own kind. -/
def Typed : MessageOption → Prop
  | other n _ => OptionKind.ofNumber? n = none
  | _ => True

theorem bytes_of_integer? {o : MessageOption} {n : UInt32} (h : o.integer? = some n) :
    o.bytes = Wire.shortest n := by
  cases o <;> cases h <;> rfl

theorem encode_eq_ok_iff {o : MessageOption} {wire : ByteArray} :
    o.encode = .ok wire ↔ wire = o.bytes ∧
      ∀ k, o.kind = some k → k.minLength ≤ o.bytes.size ∧ o.bytes.size ≤ k.maxLength := by
  unfold encode
  cases hk : o.kind with
  | none => simp [eq_comm]
  | some k =>
    dsimp only
    cases hc : k.checkLength o.bytes.size with
    | error e =>
      refine iff_of_false nofun fun h => ?_
      cases hc.symm.trans (OptionKind.checkLength_eq_ok_iff.mpr (h.2 k rfl))
    | ok u =>
      have hfits := OptionKind.checkLength_eq_ok_iff.mp hc
      simp [Except.map, hfits, eq_comm]

theorem encode_eq_error_iff {o : MessageOption} {cause : OptionError} :
    o.encode = .error cause ↔ ∃ k, o.kind = some k ∧ k.checkLength o.bytes.size = .error cause := by
  unfold encode
  cases hk : o.kind with
  | none => simp
  | some k => cases hc : k.checkLength o.bytes.size <;> simp [Except.map, hc]

theorem decode_eq_ok_iff {number : UInt16} {value : ByteArray} {o : MessageOption} :
    decode number value = .ok o ↔
      (OptionKind.ofNumber? number = none ∧ o = other number value) ∨
      ∃ k, OptionKind.ofNumber? number = some k ∧
        (k.minLength ≤ value.size ∧ value.size ≤ k.maxLength) ∧ ofKind k value = .ok o := by
  unfold decode
  cases hk : OptionKind.ofNumber? number with
  | none => simp [eq_comm]
  | some k =>
    dsimp only
    cases hc : k.checkLength value.size with
    | error e =>
      refine iff_of_false nofun ?_
      rintro (⟨hnone, -⟩ | ⟨k', hk', hfits, -⟩)
      · cases hnone
      · cases hk'
        cases hc.symm.trans (OptionKind.checkLength_eq_ok_iff.mpr hfits)
    | ok u =>
      have hfits := OptionKind.checkLength_eq_ok_iff.mp hc
      simp [bind, Except.bind, hfits]

theorem textValue_eq_ok_iff {value : ByteArray} {s : String} :
    textValue value = .ok s ↔ value = s.toUTF8 := by
  unfold textValue String.fromUTF8?
  split
  · next t ht =>
    split at ht
    · cases ht
      constructor
      · intro h
        cases h
        rfl
      · rintro rfl
        rfl
    · cases ht
  · next hnone =>
    refine iff_of_false nofun ?_
    rintro rfl
    have hvalid : s.toUTF8.IsValidUTF8 := s.isValidUTF8
    rw [dif_pos hvalid] at hnone
    cases hnone

/-- What is known of an option that has been read from the bytes of its value. -/
structure Reads (number : UInt16) (value : ByteArray) (o : MessageOption) : Prop where
  number : o.number = number
  length : ∀ k, o.kind = some k → k.minLength ≤ value.size ∧ value.size ≤ k.maxLength
  typed : o.Typed
  tagged : o ≠ ifMatch (.tag ByteArray.empty)
  bytes : o.integer? = none → o.bytes = value
  integer : ∀ n, o.integer? = some n → Wire.value value = n.toNat

theorem reads_of_ofKind {k : OptionKind} {value : ByteArray} {o : MessageOption}
    (hmin : k.minLength ≤ value.size) (hmax : value.size ≤ k.maxLength)
    (h : ofKind k value = .ok o) : Reads k.number value o := by
  have hlength (k' : OptionKind) (hk : OptionKind.ofNumber? k.number = some k') :
      k'.minLength ≤ value.size ∧ value.size ≤ k'.maxLength := by
    cases (OptionKind.ofNumber?_number k).symm.trans hk
    exact ⟨hmin, hmax⟩
  -- A text is read from the bytes that it is written with.
  have htext {make : String → MessageOption} (h : (textValue value).map make = .ok o) :
      ∃ s, o = make s ∧ value = s.toUTF8 := by
    cases ht : textValue value with
    | error e => rw [ht] at h; cases h
    | ok s =>
      rw [ht] at h
      cases h
      exact ⟨s, rfl, textValue_eq_ok_iff.mp ht⟩
  have h32 (hsize : value.size ≤ 4) (n : UInt32) (hn : some (Wire.toUInt32 value) = some n) :
      Wire.value value = n.toNat := by
    cases hn
    exact (Wire.toNat_toUInt32 hsize).symm
  have h16 (hsize : value.size ≤ 2) (n : UInt32)
      (hn : some (Wire.toUInt16 value).toUInt32 = some n) : Wire.value value = n.toNat := by
    cases hn
    rw [UInt16.toNat_toUInt32, Wire.toNat_toUInt16 hsize]
  cases k with
  | uriHost | locationPath | uriPath | uriQuery | locationQuery | proxyUri | proxyScheme =>
    obtain ⟨s, rfl, rfl⟩ := htext h
    exact ⟨rfl, hlength, trivial, nofun, fun _ => rfl, nofun⟩
  | observe | maxAge | block1 | block2 | size1 | size2 =>
    cases h
    exact ⟨rfl, hlength, trivial, nofun, nofun, h32 (le_trans hmax (by decide))⟩
  | uriPort | contentFormat | accept | hopLimit =>
    cases h
    exact ⟨rfl, hlength, trivial, nofun, nofun, h16 (le_trans hmax (by decide))⟩
  | noResponse =>
    cases h
    refine ⟨rfl, hlength, trivial, nofun, nofun, ?_⟩
    intro n hn
    cases hn
    rw [UInt8.toNat_toUInt32, Wire.toNat_toUInt8 hmax]
  | eTag =>
    cases h
    exact ⟨rfl, hlength, trivial, nofun, fun _ => rfl, nofun⟩
  | ifNoneMatch =>
    cases h
    refine ⟨rfl, hlength, trivial, nofun, fun _ => ?_, nofun⟩
    exact (ByteArray.size_eq_zero_iff.mp (Nat.le_zero.mp hmax)).symm
  | ifMatch =>
    cases h
    by_cases hempty : value.size = 0
    · rw [if_pos hempty]
      exact ⟨rfl, hlength, trivial, nofun,
        fun _ => (ByteArray.size_eq_zero_iff.mp hempty).symm, nofun⟩
    · rw [if_neg hempty]
      refine ⟨rfl, hlength, trivial, ?_, fun _ => rfl, nofun⟩
      intro htag
      cases htag
      exact hempty rfl

theorem reads_of_decode {number : UInt16} {value : ByteArray} {o : MessageOption}
    (h : decode number value = .ok o) : Reads number value o := by
  rcases decode_eq_ok_iff.mp h with ⟨hn, rfl⟩ | ⟨k, hk, ⟨hmin, hmax⟩, ho⟩
  · refine ⟨rfl, fun k hk => ?_, hn, nofun, fun _ => rfl, nofun⟩
    cases hn.symm.trans hk
  · rw [← OptionKind.number_of_ofNumber? hk]
    exact reads_of_ofKind hmin hmax ho

theorem ofKind_bytes {o : MessageOption} {k : OptionKind} (hk : o.kind = some k) (ht : o.Typed)
    (htag : o ≠ ifMatch (.tag ByteArray.empty)) : ofKind k o.bytes = .ok o := by
  have htext (make : String → MessageOption) (s : String) :
      (textValue s.toUTF8).map make = .ok (make s) := by
    rw [textValue_eq_ok_iff.mpr rfl]
    rfl
  cases o with
  | other n value =>
    cases (show OptionKind.ofNumber? n = none from ht).symm.trans hk
  | uriHost s | uriPath s | uriQuery s | locationPath s | locationQuery s | proxyUri s
  | proxyScheme s =>
    cases hk
    exact htext _ s
  | observe n | maxAge n | block1 n | block2 n | size1 n | size2 n =>
    cases hk
    simp only [ofKind, bytes, Wire.toUInt32_shortest]
  | uriPort n | contentFormat n | accept n | hopLimit n =>
    cases hk
    simp only [ofKind, bytes, Wire.toUInt16_shortest]
  | noResponse n =>
    cases hk
    simp only [ofKind, bytes, Wire.toUInt8_shortest]
  | eTag tag => cases hk; rfl
  | ifNoneMatch => cases hk; rfl
  | ifMatch condition =>
    cases hk
    cases condition with
    | anyRepresentation => rfl
    | tag etag =>
      have hsize : etag.size ≠ 0 := fun hzero => htag (by rw [ByteArray.size_eq_zero_iff.mp hzero])
      have hbytes : (ifMatch (.tag etag)).bytes = etag := rfl
      rw [hbytes, ofKind, if_neg hsize]

end MessageOption

end Coap
