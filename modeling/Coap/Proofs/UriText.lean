import Coap.Proofs.UriReference

/-! The text of a URI, character by character, and what is read from its path and its query: each
part is written behind a separator of its own, so that the parts are found again. -/
namespace Coap.Uri

/-- A port as it is written behind a host. -/
def portChars : Option UInt16 → List Char
  | none => []
  | some p => ':' :: Nat.toDigits 10 p.toNat

/-- Parts as they are written, each behind a separator. -/
def behind (separator : Char) (parts : List String) : List Char :=
  parts.flatMap fun x => separator :: x.toList

def queryChars : List String → List Char
  | [] => []
  | first :: rest => '?' :: (first.toList ++ behind '&' rest)

section Chars

variable {u : Uri} {scheme : Scheme} {host : String}

theorem toList_behind (separator : Char) (mark : String) (hmark : mark.toList = [separator])
    (parts : List String) :
    (String.join (parts.map fun x => mark ++ x)).toList = behind separator parts := by
  rw [String.toList_join, behind, List.flatMap_map]
  congr 1
  funext x
  rw [String.toList_append, hmark]
  rfl

theorem toList_queryText (query : List String) : (queryText query).toList = queryChars query := by
  cases query with
  | nil => rfl
  | cons first rest =>
    rw [queryText, String.toList_append, String.toList_append, toList_behind '&' "&" rfl,
      List.append_assoc]
    rfl

theorem toList_text_of_reference (h : u.scheme = none) : u.text.toList =
    (if u.path = [] then ['/'] else behind '/' u.path) ++ queryChars u.query := by
  have hfront : u.frontText = "" := by
    unfold frontText
    rw [h]
  rw [text, String.toList_append, String.toList_append, toList_queryText, hfront, pathText, h]
  congr 1
  by_cases hpath : u.path = []
  · rw [hpath]
    rfl
  · rw [if_neg (by simp [hpath]), if_neg hpath, toList_behind '/' "/" rfl]
    rfl

theorem toList_text_of_absolute (hscheme : u.scheme = some scheme) (hhost : u.host = some host) :
    u.text.toList = scheme.text.toList ++ "://".toList ++
      ((hostText host).toList ++ portChars u.port ++ (behind '/' u.path ++ queryChars u.query)) := by
  have hpath : u.pathText.toList = behind '/' u.path := by
    unfold pathText
    rw [hscheme, Option.isNone_some, Bool.and_false, if_neg Bool.false_ne_true,
      toList_behind '/' "/" rfl]
  have hfront : u.frontText.toList =
      scheme.text.toList ++ "://".toList ++ (hostText host).toList ++ portChars u.port := by
    unfold frontText
    rw [hscheme, hhost]
    cases u.port with
    | none => simp [portChars]
    | some p => simp [portChars, toString]
  rw [text, String.toList_append, String.toList_append, toList_queryText, hpath, hfront]
  simp only [List.append_assoc]

end Chars

section Written

variable {separator c : Char} {front x : List Char} {parts query : List String}

theorem not_mem_behind (hc : c ≠ separator) (h : ∀ x ∈ parts, c ∉ x.toList) :
    c ∉ behind separator parts := by
  intro hmem
  obtain ⟨x, hx, hcx⟩ := List.mem_flatMap.mp hmem
  exact (List.mem_cons.mp hcx).elim hc (h x hx)

theorem not_mem_queryChars (hmark : c ≠ '?') (hsep : c ≠ '&') (h : ∀ x ∈ query, c ∉ x.toList) :
    c ∉ queryChars query := by
  cases query with
  | nil => exact List.not_mem_nil
  | cons first rest =>
    obtain ⟨hfirst, hrest⟩ := List.forall_mem_cons.mp h
    intro hmem
    rcases List.mem_cons.mp hmem with he | hmem
    · exact hmark he
    · exact (List.mem_append.mp hmem).elim hfirst (not_mem_behind hsep hrest)

/-- Parts that hold something but no separator are found again behind any text. -/
theorem filledFields_behind (h : ∀ x ∈ parts, x.toList ≠ [] ∧ separator ∉ x.toList) :
    filledFields separator (front ++ behind separator parts) =
      filledFields separator front ++ parts := by
  induction parts generalizing front with
  | nil => simp [behind]
  | cons x rest ih =>
    obtain ⟨⟨hne, hsep⟩, hrest⟩ := List.forall_mem_cons.mp h
    have hx : filledFields separator x.toList = [x] := by
      rw [filledFields_of_not_mem hsep hne, String.ofList_toList]
    calc filledFields separator (front ++ behind separator (x :: rest))
        = filledFields separator (front ++ separator :: (x.toList ++ behind separator rest)) := rfl
      _ = filledFields separator front ++ ([x] ++ rest) := by
        rw [filledFields_append, ih hrest, hx]
      _ = filledFields separator front ++ x :: rest := rfl

theorem filledFields_written (h : ∀ x ∈ parts, x.toList ≠ [] ∧ separator ∉ x.toList) :
    filledFields separator (behind separator parts) = parts := by
  have hfront : filledFields separator ([] ++ behind separator parts) =
      filledFields separator [] ++ parts := filledFields_behind h
  exact hfront

theorem pathPart_append (hx : '?' ∉ x) : pathPart (x ++ queryChars query) = x := by
  rw [pathPart, List.takeWhile_append_of_pos (passed_of_not_mem hx)]
  cases query <;> simp [queryChars]

theorem queryPart_append (hx : '?' ∉ x) :
    queryPart (x ++ queryChars query) = (queryChars query).tail := by
  rw [queryPart, List.dropWhile_append_of_pos (passed_of_not_mem hx)]
  cases query <;> simp [queryChars]

theorem filledFields_queryChars (h : ∀ x ∈ query, x.toList ≠ [] ∧ '&' ∉ x.toList) :
    filledFields '&' (queryChars query).tail = query := by
  cases query with
  | nil => rfl
  | cons first rest =>
    obtain ⟨⟨hne, hsep⟩, hrest⟩ := List.forall_mem_cons.mp h
    rw [queryChars, List.tail_cons, filledFields_behind hrest, filledFields_of_not_mem hsep hne,
      String.ofList_toList]
    rfl

/-- A written query is read behind any path. -/
theorem referring_written (front : Uri) (hx : '?' ∉ x)
    (hquery : ∀ y ∈ query, y.toList ≠ [] ∧ '&' ∉ y.toList) :
    referring front (x ++ queryChars query) =
      { front with path := filledFields '/' x, query } := by
  rw [referring, pathPart_append hx, queryPart_append hx, filledFields_queryChars hquery]

/-- Between the slashes of a written path there is always something. -/
theorem no_double_slash (h : ∀ x ∈ parts, x.toList ≠ [] ∧ '/' ∉ x.toList) :
    ¬ ['/', '/'] <:+: behind '/' parts := by
  induction parts with
  | nil => decide
  | cons x rest ih =>
    obtain ⟨⟨hne, hslash⟩, hrest⟩ := List.forall_mem_cons.mp h
    intro hin
    have hcons : ['/', '/'] <:+: '/' :: (x.toList ++ behind '/' rest) := hin
    rcases List.infix_cons_iff.mp hcons with hfront | hlater
    · obtain ⟨d, r, hx⟩ := List.exists_cons_of_ne_nil hne
      rw [hx] at hfront hslash
      have hd : '/' = d := (List.cons_prefix_cons.mp (List.cons_prefix_cons.mp hfront).2).1
      rw [hd] at hslash
      exact hslash List.mem_cons_self
    · exact ih hrest (Text.infix_of_infix_append hslash hlater)

theorem no_mark_behind (hfront : ¬ "://".toList <:+: front)
    (h : ∀ x ∈ parts, ¬ "://".toList <:+: x.toList) :
    ¬ "://".toList <:+: front ++ behind '&' parts := by
  induction parts generalizing front with
  | nil => simpa [behind] using hfront
  | cons x rest ih =>
    obtain ⟨hx, hrest⟩ := List.forall_mem_cons.mp h
    intro hin
    have hcons : "://".toList <:+: front ++ '&' :: (x.toList ++ behind '&' rest) := hin
    rcases Text.infix_or_infix (by decide) (by decide) hcons with hin | hin
    · exact hfront hin
    · exact ih hx hrest hin

/-- A scheme mark in a written reference is one of its path or of a query component. -/
theorem no_mark_written (hfront : ¬ "://".toList <:+: front)
    (h : ∀ x ∈ query, ¬ "://".toList <:+: x.toList) :
    ¬ "://".toList <:+: front ++ queryChars query := by
  cases query with
  | nil => simpa [queryChars] using hfront
  | cons first rest =>
    obtain ⟨hfirst, hrest⟩ := List.forall_mem_cons.mp h
    intro hin
    have hcons : "://".toList <:+: front ++ '?' :: (first.toList ++ behind '&' rest) := hin
    rcases Text.infix_or_infix (by decide) (by decide) hcons with hin | hin
    · exact hfront hin
    · exact no_mark_behind hfirst hrest hin

end Written

end Coap.Uri
