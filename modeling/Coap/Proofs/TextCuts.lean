import Coap.Text.Split
import Mathlib.Data.List.Infix

/-! Cuts of a text in terms of the text. The first and the last place of a mark tell the parts
before and after it, and the fields between separators are those of the library's split. -/
namespace Coap.Text

section First

variable {mark m s a b : List Char} {c : Char}

theorem eq_append_of_cutFirst (h : cutFirst mark s = some (a, b)) : s = a ++ mark ++ b := by
  induction s generalizing a with
  | nil =>
    cases mark with
    | nil => cases h; rfl
    | cons d m => cases h
  | cons d r ih =>
    unfold cutFirst at h
    split at h
    · next hp =>
      cases h
      exact (List.prefix_iff_eq_append.mp (List.isPrefixOf_iff_prefix.mp hp)).symm
    · obtain ⟨⟨a', b'⟩, hr, hab⟩ := Option.map_eq_some_iff.mp h
      cases hab
      rw [ih hr]
      rfl

theorem cutFirst_eq_none_iff : cutFirst mark s = none ↔ ¬ mark <:+: s := by
  induction s with
  | nil => cases mark <;> simp [cutFirst]
  | cons d r ih =>
    rw [List.infix_cons_iff, cutFirst]
    by_cases hp : mark <+: d :: r
    · simp [List.isPrefixOf_iff_prefix.mpr hp, hp]
    · simp [hp, ih]

/-- Nothing in front of the place that is found is the mark. -/
theorem not_infix_of_cutFirst (hmark : mark ≠ []) (h : cutFirst mark s = some (a, b)) :
    ¬ mark <:+: a := by
  induction s generalizing a with
  | nil =>
    cases mark with
    | nil => exact absurd rfl hmark
    | cons d m => cases h
  | cons d r ih =>
    unfold cutFirst at h
    split at h
    · cases h
      exact mt List.eq_nil_of_infix_nil hmark
    · next hp =>
      obtain ⟨⟨a', b'⟩, hr, hab⟩ := Option.map_eq_some_iff.mp h
      cases hab
      intro hin
      rcases List.infix_cons_iff.mp hin with hfront | hlater
      · -- The mark at the front of `a` would be one at the front of the text.
        have hwhole : d :: a' <+: d :: r := by
          rw [eq_append_of_cutFirst hr, List.append_assoc]
          exact List.prefix_append (d :: a') _
        exact hp (List.isPrefixOf_iff_prefix.mpr (hfront.trans hwhole))
      · exact ih hr hlater

/-- A mark whose first character does not occur before it is found. -/
theorem cutFirst_of_not_mem (h : c ∉ a) :
    cutFirst (c :: m) (a ++ c :: m ++ b) = some (a, b) := by
  induction a with
  | nil =>
    have hp : (c :: m).isPrefixOf (c :: (m ++ b)) = true :=
      List.isPrefixOf_iff_prefix.mpr (List.prefix_append (c :: m) b)
    show cutFirst (c :: m) (c :: (m ++ b)) = some ([], b)
    rw [cutFirst, if_pos hp]
    simp
  | cons d r ih =>
    obtain ⟨hd, hr⟩ := not_or.mp (mt List.mem_cons.mpr h)
    have hp : ¬ (c :: m).isPrefixOf (d :: (r ++ c :: m ++ b)) = true := by
      intro hp
      exact hd (List.cons_prefix_cons.mp (List.isPrefixOf_iff_prefix.mp hp)).1
    show cutFirst (c :: m) (d :: (r ++ c :: m ++ b)) = some (d :: r, b)
    rw [cutFirst, if_neg hp, ih hr]
    rfl

/-- A single character is found where it stands for the first time. -/
theorem cutFirst_char_iff : cutFirst [c] s = some (a, b) ↔ s = a ++ c :: b ∧ c ∉ a := by
  have hfound {a b : List Char} (h : c ∉ a) : cutFirst [c] (a ++ c :: b) = some (a, b) := by
    have hcut := cutFirst_of_not_mem (m := []) (b := b) h
    rwa [List.append_assoc] at hcut
  constructor
  · intro h
    have hs : s = a ++ c :: b := by
      rw [eq_append_of_cutFirst h, List.append_assoc]
      rfl
    refine ⟨hs, fun hmem => ?_⟩
    -- An earlier place would have been found instead.
    obtain ⟨a₁, a₂, rfl, ha₁⟩ := List.eq_append_cons_of_mem hmem
    rw [hs, List.append_assoc, List.cons_append, hfound ha₁] at h
    have hlength := congrArg List.length (Prod.mk.inj (Option.some.inj h)).1
    simp at hlength
  · rintro ⟨rfl, ha⟩
    exact hfound ha

theorem cutFirst_char_eq_none_iff : cutFirst [c] s = none ↔ c ∉ s := by
  rw [cutFirst_eq_none_iff, List.singleton_infix_iff]

end First

section Last

variable {s a b : List Char} {c : Char}

theorem cutLast_eq_none_iff : cutLast c s = none ↔ c ∉ s := by
  induction s with
  | nil => simp [cutLast]
  | cons d r ih =>
    unfold cutLast
    cases hr : cutLast c r with
    | some p =>
      have hmem : c ∈ r := by
        by_contra hn
        cases hr.symm.trans (ih.mpr hn)
      exact iff_of_false nofun fun h => h (List.mem_cons_of_mem d hmem)
    | none =>
      have hn : c ∉ r := ih.mp hr
      by_cases hd : d = c
      · simp [hd]
      · simp [hd, hn, Ne.symm hd]

/-- The last place of a character is the one behind which it does not occur. -/
theorem cutLast_eq_some_iff : cutLast c s = some (a, b) ↔ s = a ++ c :: b ∧ c ∉ b := by
  induction s generalizing a b with
  | nil => simp [cutLast]
  | cons d r ih =>
    unfold cutLast
    cases hr : cutLast c r with
    | some p =>
      obtain ⟨x, y⟩ := p
      obtain ⟨rfl, hy⟩ := ih.mp hr
      constructor
      · intro h
        cases h
        exact ⟨rfl, hy⟩
      · rintro ⟨hs, hb⟩
        cases a with
        | nil =>
          cases hs
          exact absurd List.mem_append_cons_self hb
        | cons d' a' =>
          have hcut := ih.mpr ⟨(List.cons.inj hs).2, hb⟩
          cases hr.symm.trans hcut
          rw [(List.cons.inj hs).1]
    | none =>
      have hn : c ∉ r := cutLast_eq_none_iff.mp hr
      constructor
      · intro h
        dsimp only at h
        split at h
        · next hd =>
          cases h
          exact ⟨by rw [hd]; rfl, hn⟩
        · cases h
      · rintro ⟨hs, hb⟩
        cases a with
        | nil =>
          cases hs
          simp
        | cons d' a' =>
          rw [(List.cons.inj hs).2] at hn
          exact absurd List.mem_append_cons_self hn

end Last

theorem fields_eq_splitOn (separator : Char) (s : List Char) :
    fields separator s = s.splitOn separator := by
  induction s with
  | nil => rfl
  | cons c r ih =>
    rw [List.splitOn_cons_eq_if_modifyHead, fields, ih]
    by_cases hc : c = separator
    · simp [hc]
    · rw [if_neg hc, if_neg (by simpa using hc)]
      cases hr : r.splitOn separator with
      | nil => exact absurd hr (List.splitOn_ne_nil separator r)
      | cons f fs => rfl

/-- A field is a piece of the text without a separator in it. -/
theorem mem_splitOn {separator : Char} {s f : List Char} (h : f ∈ s.splitOn separator) :
    separator ∉ f ∧ f <:+: s := by
  by_cases hmem : separator ∈ s
  · obtain ⟨a, b, hs, ha⟩ := List.eq_append_cons_of_mem hmem
    have hshorter : b.length < s.length := by
      rw [hs, List.length_append, List.length_cons]
      omega
    rw [hs, List.splitOn_append_cons_self_of_not_mem ha] at h
    rw [hs]
    rcases List.mem_cons.mp h with rfl | hrest
    · exact ⟨ha, List.infix_append_left⟩
    · obtain ⟨hf, hin⟩ := mem_splitOn hrest
      refine ⟨hf, hin.trans ?_⟩
      exact List.infix_append_of_infix_right (List.suffix_cons separator b).isInfix
  · rw [List.splitOn_eq_singleton hmem, List.mem_singleton] at h
    subst h
    exact ⟨hmem, List.infix_rfl⟩
termination_by s.length

section Infix

variable {m mark x y : List Char} {c : Char}

/-- A mark cannot begin in a text without its first character. -/
theorem infix_of_infix_append (hc : c ∉ x) (h : c :: m <:+: x ++ y) : c :: m <:+: y := by
  induction x with
  | nil => exact h
  | cons d r ih =>
    obtain ⟨hd, hr⟩ := not_or.mp (mt List.mem_cons.mpr hc)
    rcases List.infix_cons_iff.mp h with hfront | hlater
    · exact absurd (List.cons_prefix_cons.mp hfront).1 hd
    · exact ih hr hlater

/-- A mark cannot stretch over a character that is not in it. -/
theorem infix_or_infix (hne : mark ≠ []) (hc : c ∉ mark) (h : mark <:+: x ++ c :: y) :
    mark <:+: x ∨ mark <:+: y := by
  rcases List.infix_append_iff.mp h with hx | hy | ⟨front, back, rfl, hfront, hback⟩
  · exact .inl hx
  · rcases List.infix_cons_iff.mp hy with hprefix | hy
    · -- The mark would start with the character.
      obtain ⟨d, m, rfl⟩ := List.exists_cons_of_ne_nil hne
      rw [(List.cons_prefix_cons.mp hprefix).1] at hc
      exact absurd List.mem_cons_self hc
    · exact .inr hy
  · cases back with
    | nil => exact .inl (by simpa using hfront.isInfix)
    | cons d m =>
      rw [(List.cons_prefix_cons.mp hback).1] at hc
      exact absurd List.mem_append_cons_self hc

end Infix

end Coap.Text
