import Coap.Uri.Text
import Mathlib.Data.List.Basic
import Mathlib.Data.List.Induction
import Mathlib.Tactic.IntervalCases

/-! Ports as text. The texts that are read as a port are those with its decimal digits in them, and
with nothing else but a sign and zeros in front. -/
namespace Coap.Uri

/-- The texts of a port: its decimal digits, with a plus sign or zeros in front of them at will. -/
def PortText (p : UInt16) (text : List Char) : Prop :=
  ∃ sign ∈ [[], ['+']], ∃ zeros, text = sign ++ List.replicate zeros '0' ++ Nat.toDigits 10 p.toNat

variable {digits text : List Char} {c : Char} {p : UInt16}

theorem digitsBelow_eq (bound : Nat) (digits : List Char) :
    digitsBelow bound digits = min bound (Nat.ofDigitChars 10 digits 0) := by
  have hfold (l : List Char) (n : Nat) :
      l.foldl (fun n c => min bound (n * 10 + (c.toNat - 48))) (min bound n) =
        min bound (Nat.ofDigitChars 10 l n) := by
    induction l generalizing n with
    | nil => rfl
    | cons c l ih =>
      have hstep : min bound (min bound n * 10 + (c.toNat - 48)) =
          min bound (10 * n + (c.toNat - 48)) := by omega
      rw [List.foldl_cons, hstep, ih, Nat.ofDigitChars_cons]
      rfl
  have hzero := hfold digits 0
  rwa [Nat.min_zero] at hzero

theorem toDigits_of_isDigit (h : c.isDigit = true) : Nat.toDigits 10 (c.toNat - 48) = [c] := by
  have hrange := Char.isDigit_iff_toNat.mp h
  have hlow : 48 ≤ c.toNat := hrange.1
  have hhigh : c.toNat ≤ 57 := hrange.2
  have hchar : Char.ofNat c.toNat = c := Char.ofNat_toNat c
  rw [Nat.toDigits_of_lt_base (by omega), ← hchar]
  congr 1
  generalize c.toNat = n at hlow hhigh ⊢
  interval_cases n <;> decide

/-- A number is told by its digits up to zeros in front of them. -/
theorem exists_zeros (hne : digits ≠ []) (h : ∀ c ∈ digits, c.isDigit = true) :
    ∃ zeros, digits =
      List.replicate zeros '0' ++ Nat.toDigits 10 (Nat.ofDigitChars 10 digits 0) := by
  induction digits using List.reverseRecOn with
  | nil => exact absurd rfl hne
  | append_singleton front c ih =>
    have hc : c.isDigit = true := h c (by simp)
    have hlast : c.toNat - 48 < 10 := by
      have hhigh : c.toNat ≤ 57 := (Char.isDigit_iff_toNat.mp hc).2
      omega
    have hvalue : Nat.ofDigitChars 10 (front ++ [c]) 0 =
        10 * Nat.ofDigitChars 10 front 0 + (c.toNat - 48) := by
      rw [Nat.ofDigitChars_append, Nat.ofDigitChars_cons, Nat.ofDigitChars_nil]
      rfl
    rw [hvalue]
    by_cases hfront : front = []
    · refine ⟨0, ?_⟩
      rw [hfront, Nat.ofDigitChars_nil, Nat.mul_zero, Nat.zero_add, toDigits_of_isDigit hc]
      rfl
    obtain ⟨zeros, hzeros⟩ := ih hfront fun d hd => h d (List.mem_append_left [c] hd)
    by_cases hzero : Nat.ofDigitChars 10 front 0 = 0
    · -- So far there are only zeros, and the last digit is the first one that counts.
      refine ⟨zeros + 1, ?_⟩
      rw [hzero, Nat.toDigits_zero] at hzeros
      rw [hzero, Nat.mul_zero, Nat.zero_add, toDigits_of_isDigit hc, hzeros,
        List.replicate_succ']
    · refine ⟨zeros, ?_⟩
      rw [← Nat.toDigits_append_toDigits (by decide) (Nat.pos_of_ne_zero hzero) hlast,
        toDigits_of_isDigit hc, ← List.append_assoc, ← hzeros]

theorem isDigit_of_padded {zeros n : Nat}
    (h : c ∈ List.replicate zeros '0' ++ Nat.toDigits 10 n) : c.isDigit = true := by
  rcases List.mem_append.mp h with h | h
  · rw [List.eq_of_mem_replicate h]
    rfl
  · exact Nat.isDigit_of_mem_toDigits (by decide) (by decide) h

theorem PortText.isDigit_or_plus (h : PortText p text) (hc : c ∈ text) :
    c.isDigit = true ∨ c = '+' := by
  obtain ⟨sign, hsign, zeros, rfl⟩ := h
  rw [List.append_assoc] at hc
  rcases List.mem_append.mp hc with hc | hc
  · rcases List.mem_pair.mp hsign with rfl | rfl
    · cases hc
    · exact .inr (List.mem_singleton.mp hc)
  · exact .inl (isDigit_of_padded hc)

/-- The number below 2 ^ 16 that stands in decimal digits. -/
def number? (digits : List Char) : Option UInt16 :=
  if digits.isEmpty || !digits.all Char.isDigit then none
  else if digitsBelow 65536 digits < 65536 then some (UInt16.ofNat (digitsBelow 65536 digits))
  else none

theorem port?_eq (text : List Char) :
    port? text = number? (if text.head? = some '+' then text.tail else text) := rfl

theorem number?_eq_some_iff : number? digits = some p ↔
    ∃ zeros, digits = List.replicate zeros '0' ++ Nat.toDigits 10 p.toNat := by
  unfold number?
  rw [digitsBelow_eq]
  constructor
  · intro h
    split at h
    · cases h
    next hdigits =>
    simp only [Bool.or_eq_true, List.isEmpty_iff, Bool.not_eq_eq_eq_not, Bool.not_true,
      Bool.not_eq_false, not_or, List.all_eq_true] at hdigits
    obtain ⟨zeros, hzeros⟩ := exists_zeros hdigits.1 hdigits.2
    split at h
    · next hbound =>
      cases h
      have hmin : min 65536 (Nat.ofDigitChars 10 digits 0) = Nat.ofDigitChars 10 digits 0 := by omega
      rw [hmin] at hbound ⊢
      rw [UInt16.toNat_ofNat_of_lt' hbound]
      exact ⟨zeros, hzeros⟩
    · cases h
  · rintro ⟨zeros, rfl⟩
    have hall : (List.replicate zeros '0' ++ Nat.toDigits 10 p.toNat).all Char.isDigit = true :=
      List.all_eq_true.mpr fun c hc => isDigit_of_padded hc
    have hvalue : Nat.ofDigitChars 10 (List.replicate zeros '0' ++ Nat.toDigits 10 p.toNat) 0 =
        p.toNat := by
      rw [Nat.ofDigitChars_append, Nat.ofDigitChars_replicate_zero, Nat.mul_zero,
        Nat.ofDigitChars_ten_toDigits]
    have hlt : p.toNat < 65536 := p.toNat_lt
    rw [hvalue, hall, Nat.min_eq_right hlt.le, if_neg (by simp), if_pos hlt,
      UInt16.ofNat_toNat]

theorem port?_eq_some_iff : port? text = some p ↔ PortText p text := by
  rw [port?_eq, number?_eq_some_iff]
  by_cases hsign : text.head? = some '+'
  · obtain ⟨digits, rfl⟩ := List.head?_eq_some_iff.mp hsign
    rw [if_pos hsign]
    constructor
    · rintro ⟨zeros, hdigits⟩
      exact ⟨['+'], by simp, zeros, congrArg ('+' :: ·) hdigits⟩
    · rintro ⟨sign, hmem, zeros, htext⟩
      rcases List.mem_pair.mp hmem with rfl | rfl
      · -- The plus sign is not one of the digits.
        have hplus : '+' ∈ List.replicate zeros '0' ++ Nat.toDigits 10 p.toNat := by
          rw [List.nil_append] at htext
          rw [← htext]
          exact List.mem_cons_self
        cases isDigit_of_padded hplus
      · exact ⟨zeros, (List.cons.inj htext).2⟩
  · rw [if_neg hsign]
    constructor
    · rintro ⟨zeros, htext⟩
      exact ⟨[], by simp, zeros, htext⟩
    · rintro ⟨sign, hmem, zeros, htext⟩
      rcases List.mem_pair.mp hmem with rfl | rfl
      · exact ⟨zeros, htext⟩
      · rw [htext] at hsign
        exact absurd rfl hsign

end Coap.Uri
