import Coap.Proofs.TextCuts
import Coap.Uri.Text
import Mathlib.Data.List.TakeWhile

/-! References as text: which path and which query is read from a text without a scheme. A text that
starts with its path or its query is read as a reference unless a scheme mark occurs in it. -/
namespace Coap

theorem Scheme.parse_text (scheme : Scheme) : Scheme.parse scheme.text.toList = .ok scheme := by
  cases scheme <;> decide +kernel

theorem Scheme.text_of_parse {s : List Char} {scheme : Scheme} (h : Scheme.parse s = .ok scheme) :
    s.map Char.toLower = scheme.text.toList := by
  unfold parse at h
  dsimp only at h
  split at h
  · next hfound =>
    cases h
    have hbeq := List.find?_some hfound
    exact (eq_of_beq hbeq).symm
  · cases h

theorem Scheme.eq_of_parse_error {s : List Char} {cause : UriError}
    (h : Scheme.parse s = .error cause) : cause = .notCoapScheme (String.ofList s) := by
  unfold parse at h
  dsimp only at h
  split at h
  · cases h
  · cases h
    rfl

namespace Uri

/-- The text in front of the first question mark. -/
def pathPart (text : List Char) : List Char := text.takeWhile (· != '?')

/-- The text behind the first question mark. -/
def queryPart (text : List Char) : List Char := (text.dropWhile (· != '?')).tail

/-- The fields of a text in which there is something, in their order. -/
def filledFields (separator : Char) (text : List Char) : List String :=
  ((text.splitOn separator).filter fun f => f ≠ []).map String.ofList

section Components

variable {separator : Char} {x y text : List Char} {c : String}

theorem components_eq (separator : Char) (text : List Char) :
    components separator text = filledFields separator text := by
  unfold components filledFields
  rw [Text.fields_eq_splitOn]
  congr 2
  funext f
  cases f <;> rfl

/-- Everything about fields follows from what a separator does to them. -/
theorem filledFields_append (separator : Char) (x y : List Char) :
    filledFields separator (x ++ separator :: y) =
      filledFields separator x ++ filledFields separator y := by
  unfold filledFields
  rw [List.splitOn_append_cons_self, List.filter_append, List.map_append]

theorem filledFields_of_not_mem (hsep : separator ∉ x) (hne : x ≠ []) :
    filledFields separator x = [String.ofList x] := by
  unfold filledFields
  rw [List.splitOn_eq_singleton hsep]
  simp [hne]

theorem mem_filledFields (h : c ∈ filledFields separator text) :
    c.toList ≠ [] ∧ separator ∉ c.toList ∧ c.toList <:+: text := by
  obtain ⟨f, hf, rfl⟩ := List.mem_map.mp h
  obtain ⟨hfield, hne⟩ := List.mem_filter.mp hf
  rw [String.toList_ofList]
  exact ⟨of_decide_eq_true hne, Text.mem_splitOn hfield⟩

end Components

theorem checked_eq_ok_iff {u v : Uri} :
    checked u = .ok v ↔ v = u ∧ ∀ x ∈ u.segments, x.utf8ByteSize ≤ maxSegmentLength := by
  unfold checked
  by_cases h : u.segments.all fits = true
  · have hfits : ∀ x ∈ u.segments, x.utf8ByteSize ≤ maxSegmentLength :=
      fun x hx => of_decide_eq_true (List.all_eq_true.mp h x hx)
    rw [if_pos h]
    exact ⟨fun he => ⟨(Except.ok.inj he).symm, hfits⟩, fun he => congrArg Except.ok he.1.symm⟩
  · rw [if_neg h]
    refine iff_of_false nofun fun he => h ?_
    exact List.all_eq_true.mpr fun x hx => decide_eq_true (he.2 x hx)

/-- A URI with the path and the query of a text. -/
def referring (front : Uri) (text : List Char) : Uri :=
  { front with
    path := filledFields '/' (pathPart text)
    query := filledFields '&' (queryPart text) }

theorem passed_of_not_mem {text : List Char} (h : '?' ∉ text) :
    ∀ c ∈ text, (c != '?') = true :=
  fun _ hc => bne_iff_ne.mpr fun he => h (he ▸ hc)

theorem withReference_eq (front : Uri) (text : List Char) :
    withReference front text = checked (referring front text) := by
  unfold withReference referring pathPart queryPart
  cases hcut : Text.cutFirst ['?'] text with
  | none =>
    have hpath := passed_of_not_mem (Text.cutFirst_char_eq_none_iff.mp hcut)
    rw [List.takeWhile_eq_self_iff.mpr hpath, List.dropWhile_eq_nil_iff.mpr hpath]
    simp only [components_eq]
    rfl
  | some parts =>
    obtain ⟨path, query⟩ := parts
    obtain ⟨rfl, hpath⟩ := Text.cutFirst_char_iff.mp hcut
    rw [List.takeWhile_append_of_pos (passed_of_not_mem hpath),
      List.dropWhile_append_of_pos (passed_of_not_mem hpath)]
    simp [components_eq]

theorem parse_of_fragment {s : String} (h : '#' ∈ s.toList) :
    parse s = .error .containsFragment := by
  unfold parse
  dsimp only
  rw [if_pos (List.contains_iff_mem.mpr h)]

/-- Without a scheme mark the whole text is a reference. -/
theorem parse_of_unmarked {s : String} (hfragment : '#' ∉ s.toList)
    (hmark : ¬ "://".toList <:+: s.toList) : parse s = checked (referring {} s.toList) := by
  unfold parse
  dsimp only
  rw [if_neg (mt List.contains_iff_mem.mp hfragment), Text.cutFirst_eq_none_iff.mpr hmark]
  exact withReference_eq {} s.toList

/-- With a scheme mark the text in front of it has to be a scheme. -/
theorem parse_of_no_scheme {s : String} {front rest : List Char} {cause : UriError}
    (hfragment : '#' ∉ s.toList) (hcut : Text.cutFirst "://".toList s.toList = some (front, rest))
    (hscheme : Scheme.parse front = .error cause) :
    parse s = .error (.notCoapScheme (String.ofList front)) := by
  unfold parse
  dsimp only
  rw [if_neg (mt List.contains_iff_mem.mp hfragment), hcut]
  dsimp only
  rw [hscheme, Scheme.eq_of_parse_error hscheme]
  rfl

/-- No scheme starts with a slash or with a question mark. -/
theorem scheme_of_delimiter {front : List Char}
    (h : front.head? = some '/' ∨ front.head? = some '?') :
    ∃ cause, Scheme.parse front = .error cause := by
  cases hparse : Scheme.parse front with
  | error cause => exact ⟨cause, rfl⟩
  | ok scheme =>
    have hletter : (front.map Char.toLower).head? = some 'c' := by
      rw [Scheme.text_of_parse hparse]
      cases scheme <;> rfl
    rw [List.head?_map] at hletter
    rcases h with h | h <;> rw [h] at hletter <;> cases hletter

/-- A text that starts with a slash or a question mark, without a fragment and without overlong parts,
is read as a reference: its path are the fields between slashes in front of the first question mark,
its query are the fields between ampersands behind it, empty ones left out. The one exception is a
text in which a scheme mark occurs, in the path or in the query: it is refused, as what stands in
front of the first mark is no scheme. -/
theorem references_are_read {s : String}
    (hstart : s.toList.head? = some '/' ∨ s.toList.head? = some '?') (hfragment : '#' ∉ s.toList)
    (hpath : ∀ f ∈ (pathPart s.toList).splitOn '/', (String.ofList f).utf8ByteSize ≤ 255)
    (hquery : ∀ f ∈ (queryPart s.toList).splitOn '&', (String.ofList f).utf8ByteSize ≤ 255) :
    (¬ "://".toList <:+: s.toList → parse s = .ok
      { scheme := none, host := none, port := none
        path := filledFields '/' (pathPart s.toList)
        query := filledFields '&' (queryPart s.toList) }) ∧
    ("://".toList <:+: s.toList → ∃ front rest, s.toList = front ++ "://".toList ++ rest ∧
      ¬ "://".toList <:+: front ∧ parse s = .error (.notCoapScheme (String.ofList front))) := by
  constructor
  · intro hmark
    rw [parse_of_unmarked hfragment hmark]
    refine checked_eq_ok_iff.mpr ⟨rfl, fun x hx => ?_⟩
    rcases List.mem_append.mp hx with hx | hx
    · obtain ⟨f, hf, rfl⟩ := List.mem_map.mp hx
      exact hpath f (List.mem_of_mem_filter hf)
    · obtain ⟨f, hf, rfl⟩ := List.mem_map.mp hx
      exact hquery f (List.mem_of_mem_filter hf)
  · intro hmark
    cases hcut : Text.cutFirst "://".toList s.toList with
    | none => exact absurd hmark (Text.cutFirst_eq_none_iff.mp hcut)
    | some parts =>
      obtain ⟨front, rest⟩ := parts
      have hs := Text.eq_append_of_cutFirst hcut
      -- The mark is not at the very start, so the text in front of it starts as the whole one.
      have hfront : front.head? = some '/' ∨ front.head? = some '?' := by
        cases front with
        | nil => rcases hstart with h | h <;> rw [hs] at h <;> cases h
        | cons c r => rwa [hs] at hstart
      obtain ⟨cause, hcause⟩ := scheme_of_delimiter hfront
      exact ⟨front, rest, hs, Text.not_infix_of_cutFirst (by decide) hcut,
        parse_of_no_scheme hfragment hcut hcause⟩

/-- A reference with colons, an empty field and a second question mark. -/
theorem colons_are_read :
    ¬ "://".toList <:+: "/a:/b?x=c:d&&y?z".toList ∧
      parse "/a:/b?x=c:d&&y?z" = .ok { path := ["a:", "b"], query := ["x=c:d", "y?z"] } := by
  have hmark : ¬ "://".toList <:+: "/a:/b?x=c:d&&y?z".toList := by decide +kernel
  have hread := (references_are_read (s := "/a:/b?x=c:d&&y?z") (.inl rfl) (by decide +kernel)
    (by decide +kernel) (by decide +kernel)).1 hmark
  refine ⟨hmark, hread.trans ?_⟩
  decide +kernel

/-- A reference whose query holds a whole URI is taken for a URI with an unknown scheme. -/
theorem embedded_uri_is_refused :
    ¬ ∀ s : String, s.toList.head? = some '/' ∨ s.toList.head? = some '?' → '#' ∉ s.toList →
      (∀ f ∈ (pathPart s.toList).splitOn '/', (String.ofList f).utf8ByteSize ≤ 255) →
      (∀ f ∈ (queryPart s.toList).splitOn '&', (String.ofList f).utf8ByteSize ≤ 255) →
      parse s = .ok
        { path := filledFields '/' (pathPart s.toList)
          query := filledFields '&' (queryPart s.toList) } := by
  intro h
  have hread := h "/a?x=coap://b" (.inl rfl) (by decide +kernel) (by decide +kernel)
    (by decide +kernel)
  have hrefused : parse "/a?x=coap://b" = .error (.notCoapScheme "/a?x=coap") := by decide +kernel
  cases hrefused.symm.trans hread

end Uri

end Coap
