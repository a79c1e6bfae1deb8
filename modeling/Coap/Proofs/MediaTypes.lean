import Coap.ContentFormat
import Mathlib.Data.List.DropRight
import Mathlib.Data.List.Nodup

/-! Which content format a media type stands for. Letter case and white space around the text count
for nothing; every registered format is found by the media type that it is registered with, and plain
text by every text that begins like it. -/
namespace Coap

namespace Text

variable {front back s : List Char} {c : Char}

/-- Between the space and the next line there is no white space. -/
theorem isBlank_between (hlow : 0x20 < c.toNat) (hhigh : c.toNat < 0x85) : isBlank c = false := by
  simp only [isBlank, blankRanges, List.any_cons, List.any_nil, Bool.or_false, Bool.or_eq_false_iff,
    Bool.and_eq_false_iff, decide_eq_false_iff_not]
  omega

theorem isBlank_toLower (c : Char) : isBlank c.toLower = isBlank c := by
  by_cases hcapital : c.val ≥ 'A'.val ∧ c.val ≤ 'Z'.val
  · -- A capital letter and the small one for it are no white space, either of them.
    have hlow : 0x41 ≤ c.toNat := UInt32.le_iff_toNat_le.mp hcapital.1
    have hhigh : c.toNat ≤ 0x5a := UInt32.le_iff_toNat_le.mp hcapital.2
    have hsmall : c.toLower.toNat = c.toNat + 0x20 := by
      have hval : c.toLower.val = c.val + 0x20 := by
        unfold Char.toLower
        rw [dif_pos hcapital]
        rfl
      have hsum : (c.val + 0x20).toNat = (c.val.toNat + 0x20) % 2 ^ 32 := UInt32.toNat_add _ _
      have hc : c.toNat = c.val.toNat := rfl
      rw [Char.toNat, hval, hsum]
      omega
    rw [isBlank_between (c := c) (by omega) (by omega), isBlank_between (by omega) (by omega)]
  · unfold Char.toLower
    rw [dif_neg hcapital]

theorem trim_eq (s : List Char) : trim s = (s.dropWhile isBlank).rdropWhile isBlank := rfl

/-- White space at the two ends is taken away, whatever stands between. -/
theorem trim_append (hfront : ∀ c ∈ front, isBlank c = true) (hback : ∀ c ∈ back, isBlank c = true) :
    trim (front ++ s ++ back) = trim s := by
  have hend (x : List Char) : (x ++ back).rdropWhile isBlank = x.rdropWhile isBlank := by
    unfold List.rdropWhile
    rw [List.reverse_append, List.dropWhile_append_of_pos]
    intro c hc
    exact hback c (List.mem_reverse.mp hc)
  rw [trim_eq, trim_eq, List.append_assoc, List.dropWhile_append_of_pos hfront, List.dropWhile_append]
  split
  · next hempty =>
    -- All of the text is white space, and so is what is left of the back.
    rw [List.isEmpty_iff.mp hempty, List.dropWhile_eq_nil_iff.mpr hback]
  · exact hend _

theorem trim_map {f : Char → Char} (hf : ∀ c, isBlank (f c) = isBlank c) (s : List Char) :
    trim (s.map f) = (trim s).map f := by
  have hcomp : isBlank ∘ f = isBlank := funext hf
  unfold trim
  rw [List.dropWhile_map, hcomp, ← List.map_reverse, List.dropWhile_map, hcomp, List.map_reverse]

theorem isBlank_of_getLast?_trim (h : (trim s).getLast? = some c) : isBlank c = false := by
  rw [trim_eq] at h
  have hne : (s.dropWhile isBlank).rdropWhile isBlank ≠ [] := by
    intro hnil
    rw [hnil] at h
    cases h
  have hlast := List.rdropWhile_last_not isBlank (s.dropWhile isBlank) hne
  rw [List.getLast?_eq_some_getLast hne] at h
  cases h
  simpa using hlast

end Text

namespace ContentFormat

/-- The media type of plain text: alone, or with parameters behind a semicolon. -/
inductive PlainText : List Char → Prop
  | alone : PlainText "text/plain".toList
  | withParameters {blanks parameters : List Char} (h : ∀ c ∈ blanks, Text.isBlank c = true) :
      PlainText ("text/plain".toList ++ (blanks ++ ';' :: parameters))

/-- A text that begins like the media type of plain text and then goes on without a semicolon. -/
inductive Continued : List Char → Prop
  | continued {blanks rest : List Char} {c : Char} (h : ∀ c ∈ blanks, Text.isBlank c = true)
      (blank : Text.isBlank c = false) (semicolon : c ≠ ';') :
      Continued ("text/plain".toList ++ (blanks ++ c :: rest))

section Lookup

variable {s : String} {t : List Char} {f : ContentFormat}

/-- A text without white space at its end that begins like plain text is one or the other. -/
theorem prefix_iff (hlast : ∀ c, t.getLast? = some c → Text.isBlank c = false) :
    "text/plain".toList <+: t ↔ PlainText t ∨ Continued t := by
  constructor
  · rintro ⟨rest, rfl⟩
    have hblanks : ∀ c ∈ rest.takeWhile Text.isBlank, Text.isBlank c = true :=
      fun c hc => List.mem_takeWhile_imp hc
    have hrest : rest.takeWhile Text.isBlank ++ rest.dropWhile Text.isBlank = rest :=
      List.takeWhile_append_dropWhile
    cases hdrop : rest.dropWhile Text.isBlank with
    | nil =>
      -- White space to the end: there is none, so the text ends here.
      have hall : ∀ c ∈ rest, Text.isBlank c = true := List.dropWhile_eq_nil_iff.mp hdrop
      cases hend : rest.getLast? with
      | none =>
        rw [List.getLast?_eq_none_iff.mp hend, List.append_nil]
        exact .inl .alone
      | some c =>
        have hblank := hlast c (by rw [List.getLast?_append, hend, Option.some_or])
        cases (hall c (List.mem_of_getLast? hend)).symm.trans hblank
    | cons c r =>
      have hc : Text.isBlank c = false := by
        have hhead := List.head?_dropWhile_not Text.isBlank rest
        rw [hdrop] at hhead
        simpa using hhead
      rw [← hrest, hdrop]
      by_cases hsemicolon : c = ';'
      · rw [hsemicolon]
        exact .inl (.withParameters hblanks)
      · exact .inr (.continued hblanks hc hsemicolon)
  · rintro (h | h)
    · cases h with
      | alone => exact List.prefix_rfl
      | withParameters => exact List.prefix_append _ _
    · cases h with
      | continued => exact List.prefix_append _ _

theorem normalized_eq (s : String) : normalized s = Text.trim (s.toList.map Char.toLower) :=
  (Text.trim_map Text.isBlank_toLower s.toList).symm

theorem isBlank_of_getLast?_normalized {c : Char} (h : (normalized s).getLast? = some c) :
    Text.isBlank c = false := by
  rw [normalized_eq] at h
  exact Text.isBlank_of_getLast?_trim h

theorem normalized_mediaType (f : ContentFormat) : normalized f.mediaType = f.mediaType.toList := by
  cases f <;> decide +kernel

/-- No two registered formats have the same media type. -/
theorem nodup_mediaType : (registry.map mediaType).Nodup := by decide

theorem eq_textPlain_of_extends :
    ∀ f ∈ registry, "text/plain".toList <+: f.mediaType.toList → f = textPlain := by
  decide +kernel

theorem ofMediaType?_eq (s : String) : ofMediaType? s =
    if "text/plain".toList <+: normalized s then some textPlain
    else registry.find? fun f => f.mediaType.toList == normalized s := by
  unfold ofMediaType?
  dsimp only
  by_cases hempty : normalized s = []
  · rw [hempty]
    decide +kernel
  · rw [if_neg (mt List.isEmpty_iff.mp hempty)]
    simp only [List.isPrefixOf_iff_prefix]

theorem find?_eq_some_iff : (registry.find? fun g => g.mediaType.toList == t) = some f ↔
    f ∈ registry ∧ t = f.mediaType.toList := by
  constructor
  · intro h
    have hbeq := List.find?_some h
    exact ⟨List.mem_of_find?_eq_some h, (eq_of_beq hbeq).symm⟩
  · rintro ⟨hf, rfl⟩
    cases hfind : registry.find? fun g => g.mediaType.toList == f.mediaType.toList with
    | none =>
      have hno := List.find?_eq_none.mp hfind f hf
      simp at hno
    | some g =>
      have hbeq := List.find?_some hfind
      have hmedia : g.mediaType = f.mediaType := String.toList_inj.mp (eq_of_beq hbeq)
      rw [List.inj_on_of_nodup_map nodup_mediaType (List.mem_of_find?_eq_some hfind) hf hmedia]

theorem ofMediaType?_eq_textPlain_iff :
    ofMediaType? s = some textPlain ↔ "text/plain".toList <+: normalized s := by
  rw [ofMediaType?_eq]
  by_cases hprefix : "text/plain".toList <+: normalized s
  · exact iff_of_true (if_pos hprefix) hprefix
  · rw [if_neg hprefix, find?_eq_some_iff]
    refine iff_of_false ?_ hprefix
    rintro ⟨-, h⟩
    rw [h] at hprefix
    exact hprefix (by decide)

theorem ofMediaType?_eq_some_iff (hf : f ≠ textPlain) :
    ofMediaType? s = some f ↔ f ∈ registry ∧ normalized s = f.mediaType.toList := by
  rw [ofMediaType?_eq]
  by_cases hprefix : "text/plain".toList <+: normalized s
  · rw [if_pos hprefix]
    refine iff_of_false (fun h => hf (Option.some.inj h).symm) ?_
    rintro ⟨hmem, h⟩
    rw [h] at hprefix
    exact hf (eq_textPlain_of_extends f hmem hprefix)
  · rw [if_neg hprefix, find?_eq_some_iff]

theorem ofMediaType?_mediaType (hf : f ∈ registry) : ofMediaType? f.mediaType = some f := by
  by_cases htext : f = textPlain
  · rw [htext, ofMediaType?_eq_textPlain_iff, normalized_mediaType]
    decide
  · exact (ofMediaType?_eq_some_iff htext).mpr ⟨hf, normalized_mediaType f⟩

/-- Letter case and white space around a media type count for nothing. -/
theorem normalized_surrounded {s' : String} {front back : List Char}
    (hblanks : ∀ c ∈ front ++ back, Text.isBlank c = true)
    (hcase : s'.toList.map Char.toLower = s.toList.map Char.toLower) :
    normalized (String.ofList (front ++ s'.toList ++ back)) = normalized s := by
  obtain ⟨hfront, hback⟩ := List.forall_mem_append.mp hblanks
  calc normalized (String.ofList (front ++ s'.toList ++ back))
      = (Text.trim (front ++ s'.toList ++ back)).map Char.toLower := by
        rw [normalized, String.toList_ofList]
    _ = normalized s' := by rw [Text.trim_append hfront hback, normalized]
    _ = normalized s := by rw [normalized_eq, normalized_eq, hcase]

/-- A media type, trimmed and in small letters, stands for plain text if it is that of plain text,
alone or with parameters, and also if it merely begins like it and goes on in another way; it stands
for another format exactly if that format is registered with it, and for none otherwise. -/
theorem media_types_are_looked_up (s : String) :
    (ofMediaType? s = some textPlain ↔ PlainText (normalized s) ∨ Continued (normalized s)) ∧
    (∀ f, f ≠ textPlain →
      (ofMediaType? s = some f ↔ f ∈ registry ∧ normalized s = f.mediaType.toList)) ∧
    (ofMediaType? s = none ↔ ¬ PlainText (normalized s) ∧ ¬ Continued (normalized s) ∧
      ∀ f ∈ registry, normalized s ≠ f.mediaType.toList) ∧
    (∀ f ∈ registry, ofMediaType? f.mediaType = some f) ∧
    ∀ (s' : String) (front back : List Char), (∀ c ∈ front ++ back, Text.isBlank c = true) →
      s'.toList.map Char.toLower = s.toList.map Char.toLower →
      ofMediaType? (String.ofList (front ++ s'.toList ++ back)) = ofMediaType? s := by
  have hplain : ofMediaType? s = some textPlain ↔
      PlainText (normalized s) ∨ Continued (normalized s) :=
    ofMediaType?_eq_textPlain_iff.trans (prefix_iff fun _ => isBlank_of_getLast?_normalized)
  refine ⟨hplain, fun f hf => ofMediaType?_eq_some_iff hf, ?_, fun f => ofMediaType?_mediaType, ?_⟩
  · constructor
    · intro hnone
      have hno (f : ContentFormat) : ofMediaType? s ≠ some f := by
        rw [hnone]
        exact nofun
      obtain ⟨hp, hc⟩ := not_or.mp (mt hplain.mpr (hno textPlain))
      refine ⟨hp, hc, fun f hf h => ?_⟩
      by_cases htext : f = textPlain
      · -- Plain text is registered with a parameter.
        rw [h, htext] at hp
        exact hp (@PlainText.withParameters [] _ nofun)
      · exact hno f ((ofMediaType?_eq_some_iff htext).mpr ⟨hf, h⟩)
    · rintro ⟨hp, hc, hothers⟩
      cases hfound : ofMediaType? s with
      | none => rfl
      | some f =>
        by_cases htext : f = textPlain
        · rw [htext] at hfound
          exact absurd (hplain.mp hfound) (not_or.mpr ⟨hp, hc⟩)
        · obtain ⟨hmem, h⟩ := (ofMediaType?_eq_some_iff htext).mp hfound
          exact absurd h (hothers f hmem)
  · intro s' front back hblanks hcase
    rw [ofMediaType?_eq, ofMediaType?_eq, normalized_surrounded hblanks hcase]

/-- Another type that begins with the same letters is taken for plain text. -/
theorem other_type_is_taken_for_plain_text :
    ¬ ∀ s : String, ofMediaType? s = some textPlain → PlainText (normalized s) := by
  intro h
  have hfound : ofMediaType? "text/plainer" = some textPlain := by decide +kernel
  have hnormal : normalized "text/plainer" = "text/plain".toList ++ "er".toList := by
    decide +kernel
  have hplain := h "text/plainer" hfound
  rw [hnormal] at hplain
  generalize ht : "text/plain".toList ++ "er".toList = t at hplain
  cases hplain with
  | alone => exact absurd ht (by decide)
  | @withParameters blanks parameters hblanks =>
    have hrest : "er".toList = blanks ++ ';' :: parameters := List.append_cancel_left ht
    have hmem : ';' ∈ "er".toList := by
      rw [hrest]
      exact List.mem_append_cons_self
    exact absurd hmem (by decide)

end Lookup

end ContentFormat

end Coap
