import Coap.Message
import Coap.Proofs.OptionValues

/-! Which messages can be put on the wire, in terms of the values of their options. -/
namespace Coap

namespace MessageOption

/-- A measure of a value with the bounds that it must keep. -/
structure Limits where
  amount : Nat
  least : Nat
  most : Nat

/-- The bound that is not kept, as the error names it. -/
inductive Limits.Broken (l : Limits) : OptionError → Prop
  | below (h : l.amount < l.least) : Broken l .tooShort
  | above (h : l.most < l.amount) : Broken l .tooLong

/-- What limits the value of an option: the number of an unsigned integer whose kind leaves it less
room than its type, the bytes of everything else. An option without an entry may hold any value. -/
def limits : MessageOption → Option Limits
  | observe n => some ⟨n.toNat, 0, 2 ^ 24 - 1⟩
  | block1 n => some ⟨n.toNat, 0, 2 ^ 24 - 1⟩
  | block2 n => some ⟨n.toNat, 0, 2 ^ 24 - 1⟩
  | hopLimit n => some ⟨n.toNat, 1, 255⟩
  | eTag etag => some ⟨etag.size, 1, 8⟩
  | ifMatch (.tag etag) => some ⟨etag.size, 0, 8⟩
  | uriHost s => some ⟨s.utf8ByteSize, 1, 255⟩
  | proxyScheme s => some ⟨s.utf8ByteSize, 1, 255⟩
  | proxyUri s => some ⟨s.utf8ByteSize, 1, 1034⟩
  | uriPath s => some ⟨s.utf8ByteSize, 0, 255⟩
  | uriQuery s => some ⟨s.utf8ByteSize, 0, 255⟩
  | locationPath s => some ⟨s.utf8ByteSize, 0, 255⟩
  | locationQuery s => some ⟨s.utf8ByteSize, 0, 255⟩
  | other n value =>
    (OptionKind.ofNumber? n).map fun k => ⟨value.size, k.minLength, k.maxLength⟩
  | _ => none

/-- The value keeps its limits, if it has any. -/
def InLimits (o : MessageOption) : Prop :=
  ∀ l ∈ o.limits, l.least ≤ l.amount ∧ l.amount ≤ l.most

instance : DecidablePred InLimits := fun o =>
  inferInstanceAs (Decidable (∀ l ∈ o.limits, l.least ≤ l.amount ∧ l.amount ≤ l.most))

/-- The lengths that a kind allows are the limits of the value. -/
theorem limits_of_kind {o : MessageOption} {k : OptionKind} (hk : o.kind = some k) :
    (o.limits = none ∧ k.minLength ≤ o.bytes.size ∧ o.bytes.size ≤ k.maxLength) ∨
      ∃ l, o.limits = some l ∧ (o.bytes.size < k.minLength ↔ l.amount < l.least) ∧
        (k.maxLength < o.bytes.size ↔ l.most < l.amount) := by
  have hroom {n : UInt32} (size : Nat) (h : n.toNat < 256 ^ size) :
      0 ≤ (Wire.shortest n).size ∧ (Wire.shortest n).size ≤ size :=
    ⟨Nat.zero_le _, Wire.shortest_size_le_iff.mpr h⟩
  -- Integers are limited by their number of bytes, everything else has the same measure on both
  -- sides.
  cases o with
  | observe n | block1 n | block2 n =>
    cases hk
    have hlong : 3 < (Wire.shortest n).size ↔ 2 ^ 24 - 1 < n.toNat := by
      have hthree := Wire.shortest_size_le_iff (n := n) (k := 3)
      omega
    exact .inr ⟨_, rfl, iff_of_false (Nat.not_lt_zero _) (Nat.not_lt_zero _), hlong⟩
  | hopLimit n =>
    cases hk
    have hshort : (Wire.shortest n.toUInt32).size < 1 ↔ n.toNat < 1 :=
      Nat.lt_one_iff.trans (Nat.le_zero.symm.trans (Wire.shortest_size_le_iff (k := 0)))
    have hlong : 1 < (Wire.shortest n.toUInt32).size ↔ 255 < n.toNat := by
      have hone := Wire.shortest_size_le_iff (n := n.toUInt32) (k := 1)
      rw [UInt16.toNat_toUInt32] at hone
      omega
    exact .inr ⟨_, rfl, hshort, hlong⟩
  | maxAge n | size1 n | size2 n =>
    cases hk
    exact .inl ⟨rfl, hroom 4 n.toNat_lt⟩
  | uriPort n | contentFormat n | accept n =>
    cases hk
    exact .inl ⟨rfl, hroom 2 n.toNat_lt⟩
  | noResponse n =>
    cases hk
    exact .inl ⟨rfl, hroom 1 n.toNat_lt⟩
  | ifNoneMatch => cases hk; exact .inl ⟨rfl, Nat.le_refl 0, Nat.le_refl 0⟩
  | uriHost s | uriPath s | uriQuery s | locationPath s | locationQuery s | proxyUri s
  | proxyScheme s =>
    cases hk
    exact .inr ⟨_, rfl, Iff.rfl, Iff.rfl⟩
  | eTag etag => cases hk; exact .inr ⟨_, rfl, Iff.rfl, Iff.rfl⟩
  | ifMatch condition =>
    cases hk
    cases condition with
    | tag etag => exact .inr ⟨_, rfl, Iff.rfl, Iff.rfl⟩
    | anyRepresentation => exact .inl ⟨rfl, Nat.le_refl 0, Nat.zero_le 8⟩
  | other n value =>
    have hn : OptionKind.ofNumber? n = some k := hk
    exact .inr ⟨_, congrArg (Option.map _) hn, Iff.rfl, Iff.rfl⟩

theorem limits_of_unregistered {o : MessageOption} (hk : o.kind = none) : o.limits = none := by
  cases o with
  | other n value =>
    have hn : OptionKind.ofNumber? n = none := hk
    exact congrArg (Option.map _) hn
  | _ => cases hk

theorem encode_eq_error_iff_limits {o : MessageOption} {cause : OptionError} :
    o.encode = .error cause ↔ ∃ l, o.limits = some l ∧ l.Broken cause := by
  rw [encode_eq_error_iff]
  constructor
  · rintro ⟨k, hk, hc⟩
    have hbroken := OptionKind.checkLength_eq_error_iff.mp hc
    rcases limits_of_kind hk with ⟨-, hmin, hmax⟩ | ⟨l, hl, hbelow, habove⟩
    · omega
    · rcases hbroken with ⟨hshort, rfl⟩ | ⟨hlong, rfl⟩
      · exact ⟨l, hl, .below (hbelow.mp hshort)⟩
      · exact ⟨l, hl, .above (habove.mp hlong)⟩
  · rintro ⟨l, hl, hbroken⟩
    cases hk : o.kind with
    | none => cases (limits_of_unregistered hk).symm.trans hl
    | some k =>
      refine ⟨k, rfl, OptionKind.checkLength_eq_error_iff.mpr ?_⟩
      rcases limits_of_kind hk with ⟨hnone, -⟩ | ⟨l', hl', hbelow, habove⟩
      · cases hnone.symm.trans hl
      · cases hl'.symm.trans hl
        cases hbroken with
        | below h => exact .inl ⟨hbelow.mpr h, rfl⟩
        | above h => exact .inr ⟨habove.mpr h, rfl⟩

theorem encodes_iff_inLimits {o : MessageOption} : o.Encodes ↔ o.InLimits := by
  cases he : o.encode with
  | ok wire =>
    refine iff_of_true ⟨wire, he⟩ fun l hl => ?_
    -- A bound that is not kept is an error.
    have hsound (cause : OptionError) (h : l.Broken cause) : False := by
      cases he.symm.trans (encode_eq_error_iff_limits.mpr ⟨l, hl, h⟩)
    exact ⟨Nat.not_lt.mp fun h => hsound _ (.below h), Nat.not_lt.mp fun h => hsound _ (.above h)⟩
  | error cause =>
    obtain ⟨l, hl, hbroken⟩ := encode_eq_error_iff_limits.mp he
    refine iff_of_false ?_ fun hin => ?_
    · rintro ⟨wire, hw⟩
      cases he.symm.trans hw
    · obtain ⟨hleast, hmost⟩ := hin l hl
      cases hbroken with
      | below h => omega
      | above h => omega

end MessageOption

namespace Message

theorem checkOptions_eq_ok_iff {options : List MessageOption} :
    checkOptions options = .ok () ↔ ∀ o ∈ options, o.Encodes := by
  induction options with
  | nil => simp [checkOptions]
  | cons o rest ih =>
    rw [List.forall_mem_cons, ← ih, checkOptions]
    unfold MessageOption.Encodes
    cases o.encode with
    | error e => simp
    | ok bytes => simp

/-- The error is that of the first option that cannot be encoded. -/
theorem checkOptions_eq_error_iff {options : List MessageOption} {e : MessageError} :
    checkOptions options = .error e ↔ ∃ before o after cause, options = before ++ o :: after ∧
      (∀ p ∈ before, p.Encodes) ∧ o.encode = .error cause ∧ e = .invalidOption o.kind cause := by
  induction options with
  | nil => simp [checkOptions]
  | cons o rest ih =>
    rw [checkOptions]
    cases he : o.encode with
    | error cause =>
      constructor
      · intro h
        cases h
        exact ⟨[], o, rest, cause, rfl, nofun, he, rfl⟩
      · rintro ⟨before, p, after, cause', hsplit, hbefore, hp, rfl⟩
        cases before with
        | nil =>
          cases hsplit
          cases he.symm.trans hp
          rfl
        | cons q before =>
          cases hsplit
          obtain ⟨wire, hw⟩ := hbefore o List.mem_cons_self
          cases he.symm.trans hw
    | ok wire =>
      dsimp only
      rw [ih]
      constructor
      · rintro ⟨before, p, after, cause, rfl, hbefore, hp, rfl⟩
        exact ⟨o :: before, p, after, cause, rfl,
          List.forall_mem_cons.mpr ⟨⟨wire, he⟩, hbefore⟩, hp, rfl⟩
      · rintro ⟨before, p, after, cause, hsplit, hbefore, hp, rfl⟩
        cases before with
        | nil =>
          cases hsplit
          cases he.symm.trans hp
        | cons q before =>
          cases hsplit
          exact ⟨before, p, after, cause, rfl, (List.forall_mem_cons.mp hbefore).2, hp, rfl⟩

/-- What makes a message valid. -/
structure Valid (m : Message) : Prop where
  token : m.token.size ≤ maxTokenLength
  data : m.code = .empty → m.payload.size = 0
  options : ∀ o ∈ m.options, o.Encodes

theorem validate_eq_ok_iff {m : Message} : m.validate = .ok () ↔ m.Valid := by
  unfold validate
  constructor
  · intro h
    split at h
    · cases h
    split at h
    · cases h
    next ht hd =>
      exact ⟨by omega, fun hc => Decidable.byContradiction fun hne => hd ⟨hc, hne⟩,
        checkOptions_eq_ok_iff.mp h⟩
  · intro h
    have ht := h.token
    rw [if_neg (by omega), if_neg fun hd => hd.2 (h.data hd.1)]
    exact checkOptions_eq_ok_iff.mpr h.options

/-- The faults of a message in the order in which they are looked for. -/
inductive Fault (m : Message) : MessageError → Prop
  | token (h : maxTokenLength < m.token.size) : Fault m (.tokenTooLong m.token.size)
  | data (token : m.token.size ≤ maxTokenLength) (code : m.code = .empty)
      (payload : m.payload.size ≠ 0) : Fault m .dataInEmptyMessage
  | option {before after : List MessageOption} {o : MessageOption} {l : MessageOption.Limits}
      {cause : OptionError} (token : m.token.size ≤ maxTokenLength)
      (data : m.code = .empty → m.payload.size = 0) (split : m.options = before ++ o :: after)
      (earlier : ∀ p ∈ before, p.InLimits) (limits : o.limits = some l) (broken : l.Broken cause) :
      Fault m (.invalidOption o.kind cause)

theorem validate_eq_error_iff {m : Message} {e : MessageError} :
    m.validate = .error e ↔ m.Fault e := by
  unfold validate
  constructor
  · intro h
    split at h
    · next ht =>
      cases h
      exact .token ht
    split at h
    · next ht hd =>
      cases h
      exact .data (Nat.not_lt.mp ht) hd.1 hd.2
    · next ht hd =>
      have hdata (hc : m.code = .empty) : m.payload.size = 0 :=
        Decidable.byContradiction fun hne => hd ⟨hc, hne⟩
      obtain ⟨before, o, after, cause, hsplit, hbefore, ho, rfl⟩ := checkOptions_eq_error_iff.mp h
      obtain ⟨l, hl, hbroken⟩ := MessageOption.encode_eq_error_iff_limits.mp ho
      exact .option (Nat.not_lt.mp ht) hdata hsplit
        (fun p hp => MessageOption.encodes_iff_inLimits.mp (hbefore p hp)) hl hbroken
  · intro h
    cases h with
    | token ht => rw [if_pos ht]
    | data ht hc hp => rw [if_neg (Nat.not_lt.mpr ht), if_pos ⟨hc, hp⟩]
    | @option before after o l cause ht hdata hsplit hbefore hl hbroken =>
      rw [if_neg (Nat.not_lt.mpr ht), if_neg fun hd => hd.2 (hdata hd.1)]
      exact checkOptions_eq_error_iff.mpr ⟨before, o, after, cause, hsplit,
        fun p hp => MessageOption.encodes_iff_inLimits.mpr (hbefore p hp),
        MessageOption.encode_eq_error_iff_limits.mpr ⟨l, hl, hbroken⟩, rfl⟩

/-- A message can be put on the wire exactly if its token, its payload and the values of all its
options keep their limits; otherwise the first limit that it breaks is the error. -/
theorem validate_decides (m : Message) :
    (m.validate = .ok () ↔ m.token.size ≤ 8 ∧ (m.code = .empty → m.payload.size = 0) ∧
      ∀ o ∈ m.options, o.InLimits) ∧
    ∀ e, m.validate = .error e ↔ m.Fault e := by
  refine ⟨?_, fun e => validate_eq_error_iff⟩
  rw [validate_eq_ok_iff]
  constructor
  · intro h
    exact ⟨h.token, h.data, fun o ho => MessageOption.encodes_iff_inLimits.mp (h.options o ho)⟩
  · rintro ⟨htoken, hdata, hoptions⟩
    exact ⟨htoken, hdata, fun o ho => MessageOption.encodes_iff_inLimits.mpr (hoptions o ho)⟩

example : ¬ (MessageOption.hopLimit 0).InLimits ∧ (MessageOption.block2 (2 ^ 24 - 1)).InLimits := by
  decide

end Message

end Coap
