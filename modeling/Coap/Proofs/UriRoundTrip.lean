import Coap.Proofs.UriAuthority
import Coap.Proofs.UriText

/-! URIs written and read again. A URI that has been read from a text is read from its own text as it
was, unless its host is one that the brackets of a text cannot tell. -/
namespace Coap.Uri

/-- What is known of the parts of a URI that has been read. -/
structure Legible (u : Uri) : Prop where
  path : ∀ x ∈ u.path, x.toList ≠ [] ∧ '/' ∉ x.toList ∧ '?' ∉ x.toList
  query : ∀ x ∈ u.query, x.toList ≠ [] ∧ '&' ∉ x.toList
  fragment : ∀ x ∈ u.segments, '#' ∉ x.toList
  fits : ∀ x ∈ u.segments, x.utf8ByteSize ≤ maxSegmentLength

section Read

variable {u front : Uri} {text : List Char}

theorem subset_pathPart {c : Char} (h : c ∈ pathPart text) : c ∈ text ∧ c ≠ '?' := by
  have hmark : (c != '?') = true := List.mem_takeWhile_imp (p := (· != '?')) h
  exact ⟨(List.takeWhile_sublist _).subset h, bne_iff_ne.mp hmark⟩

theorem infix_queryPart : queryPart text <:+: text :=
  ((List.tail_suffix _).trans (List.dropWhile_suffix _)).isInfix

/-- The parts that are read from a text are legible. -/
theorem legible_of_referring (hfragment : '#' ∉ text) (hhost : ∀ x ∈ front.host, '#' ∉ x.toList)
    (h : checked (referring front text) = .ok u) : Legible u := by
  obtain ⟨rfl, hfits⟩ := checked_eq_ok_iff.mp h
  have hpath {x : String} (hx : x ∈ filledFields '/' (pathPart text)) :
      x.toList ≠ [] ∧ '/' ∉ x.toList ∧ ∀ c ∈ x.toList, c ∈ text ∧ c ≠ '?' := by
    obtain ⟨hne, hslash, hin⟩ := mem_filledFields hx
    exact ⟨hne, hslash, fun c hc => subset_pathPart (hin.subset hc)⟩
  refine ⟨fun x hx => ?_, fun x hx => ?_, fun x hx => ?_, hfits⟩
  · obtain ⟨hne, hslash, hall⟩ := hpath hx
    exact ⟨hne, hslash, fun hmark => (hall _ hmark).2 rfl⟩
  · obtain ⟨hne, hsep, -⟩ := mem_filledFields hx
    exact ⟨hne, hsep⟩
  · simp only [segments, List.mem_append, Option.mem_toList] at hx
    rcases hx with (hx | hx) | hx
    · exact hhost x hx
    · exact fun hc => hfragment ((hpath hx).2.2 _ hc).1
    · obtain ⟨-, -, hin⟩ := mem_filledFields hx
      exact fun hc => hfragment ((hin.trans infix_queryPart).subset hc)

end Read

section Authority

variable {host : String} {port : Option UInt16} {suffix : List Char} {c : Char}

/-- The hosts that a text tells: one that is written in brackets has no closing bracket, and one that
is written plainly does not start with an opening one. -/
def Printable (host : String) : Prop :=
  if ':' ∈ host.toList then ']' ∉ host.toList else host.toList.head? ≠ some '['

instance (host : String) : Decidable (Printable host) :=
  inferInstanceAs (Decidable (if ':' ∈ host.toList then _ else _))

theorem Accepted.mem_of_mem {a : List Char} (h : Accepted host port a) (hc : c ∈ host.toList) :
    c ∈ a := by
  rcases h.2 with h | ⟨-, h⟩
  · cases h <;> simp [hc]
  · cases h
    simp [hc]

theorem portSuffix_portChars (port : Option UInt16) : PortSuffix port (portChars port) := by
  cases port with
  | none => exact .absent
  | some p => exact .present ⟨[], by simp, 0, rfl⟩

/-- A port is written in the shortest way. -/
theorem PortSuffix.length_le (h : PortSuffix port suffix) :
    (portChars port).length ≤ suffix.length := by
  cases h with
  | absent => exact Nat.le_refl 0
  | present hp =>
    obtain ⟨sign, -, zeros, rfl⟩ := hp
    simp only [portChars, List.length_cons, List.length_append]
    omega

theorem mem_portChars (h : c ∈ portChars port) : c = ':' ∨ c.isDigit = true := by
  cases port with
  | none => cases h
  | some p =>
    rcases List.mem_cons.mp h with rfl | h
    · exact .inl rfl
    · exact .inr (Nat.isDigit_of_mem_toDigits (by decide) (by decide) h)

theorem toList_hostText_of_colon (h : ':' ∈ host.toList) :
    (hostText host).toList = '[' :: (host.toList ++ [']']) := by
  unfold hostText
  rw [if_pos (List.contains_iff_mem.mpr h)]
  simp [toString]

theorem hostText_of_no_colon (h : ':' ∉ host.toList) : hostText host = host := by
  unfold hostText
  rw [if_neg (mt List.contains_iff_mem.mp h)]

theorem mem_hostText (h : c ∈ (hostText host).toList) : c = '[' ∨ c ∈ host.toList ∨ c = ']' := by
  by_cases hcolon : ':' ∈ host.toList
  · rw [toList_hostText_of_colon hcolon] at h
    simpa using h
  · rw [hostText_of_no_colon hcolon] at h
    exact .inr (.inl h)

/-- A host in brackets is read up to the first closing one. -/
theorem accepted_in_brackets_iff (hne : host ≠ "") (port : Option UInt16) :
    Accepted host port ('[' :: (host.toList ++ ']' :: portChars port)) ↔ ']' ∉ host.toList := by
  constructor
  · intro ⟨_, hform⟩
    generalize ha : '[' :: (host.toList ++ ']' :: portChars port) = a at hform
    rcases hform with hspelled | ⟨-, hcluttered⟩
    · cases hspelled with
      | plain hopening =>
        -- A plain host would start with the bracket.
        have hlist : host.toList ≠ [] := fun he => hne (String.toList_eq_nil_iff.mp he)
        have hhead := congrArg List.head? ha
        rw [List.head?_append_of_ne_nil _ hlist] at hhead
        exact absurd hhead.symm hopening
      | bracketed hclosing => exact hclosing
    · cases hcluttered with
      | clutter hclosing => exact hclosing
  · intro hclosing
    exact ⟨hne, .inl (.bracketed hclosing (portSuffix_portChars port))⟩

/-- A host without brackets around it must not start with one. -/
theorem accepted_plainly_iff (hne : host ≠ "") (hcolon : ':' ∉ host.toList) (port : Option UInt16) :
    Accepted host port (host.toList ++ portChars port) ↔ host.toList.head? ≠ some '[' := by
  constructor
  · intro ⟨_, hform⟩
    generalize ha : host.toList ++ portChars port = a at hform
    -- Brackets around the host make a text longer than the one that is written.
    have hlength := congrArg List.length ha
    rcases hform with hspelled | ⟨hnone, hcluttered⟩
    · cases hspelled with
      | plain hopening => exact hopening
      | bracketed _ hport =>
        have hshort := hport.length_le
        simp only [List.length_cons, List.length_append] at hlength
        omega
    · cases hcluttered with
      | clutter =>
        rw [hnone] at hlength
        simp only [List.length_cons, List.length_append, portChars, List.length_nil] at hlength
        omega
  · intro hopening
    exact ⟨hne, .inl (.plain hopening (absurd · hcolon) (portSuffix_portChars port))⟩

/-- The host and the port of a URI are read from their text exactly if the host is printable. -/
theorem accepted_written_iff (hne : host ≠ "") (port : Option UInt16) :
    Accepted host port ((hostText host).toList ++ portChars port) ↔ Printable host := by
  by_cases hcolon : ':' ∈ host.toList
  · have hwritten : (hostText host).toList ++ portChars port =
        '[' :: (host.toList ++ ']' :: portChars port) := by
      rw [toList_hostText_of_colon hcolon]
      simp
    rw [hwritten, Printable, if_pos hcolon]
    exact accepted_in_brackets_iff hne port
  · rw [hostText_of_no_colon hcolon, Printable, if_neg hcolon]
    exact accepted_plainly_iff hne hcolon port

end Authority

section RoundTrip

variable {s : String} {u : Uri} {scheme : Scheme} {host : String}

theorem Legible.mark_of_path (h : Legible u) : '?' ∉ behind '/' u.path :=
  not_mem_behind (by decide) fun x hx => (h.path x hx).2.2

theorem Legible.fragment_of_path (h : Legible u) : '#' ∉ behind '/' u.path :=
  not_mem_behind (by decide) fun x hx => h.fragment x (by simp [segments, hx])

theorem Legible.fragment_of_query (h : Legible u) : '#' ∉ queryChars u.query :=
  not_mem_queryChars (by decide) (by decide) fun x hx => h.fragment x (by simp [segments, hx])

theorem Legible.fields_of_path (h : Legible u) : ∀ x ∈ u.path, x.toList ≠ [] ∧ '/' ∉ x.toList :=
  fun x hx => ⟨(h.path x hx).1, (h.path x hx).2.1⟩

/-- A path without segments is written as a slash, from which no segment is read. -/
theorem Legible.path_written (h : Legible u) (hscheme : u.scheme = none) :
    ∃ path : List Char, u.text.toList = path ++ queryChars u.query ∧ '?' ∉ path ∧ '#' ∉ path ∧
      ¬ "://".toList <:+: path ∧ filledFields '/' path = u.path := by
  refine ⟨_, toList_text_of_reference hscheme, ?_⟩
  by_cases hempty : u.path = []
  · rw [if_pos hempty, hempty]
    decide
  · rw [if_neg hempty]
    refine ⟨h.mark_of_path, h.fragment_of_path, fun hin => ?_,
      filledFields_written h.fields_of_path⟩
    have hslashes : ['/', '/'] <:+: "://".toList := by decide
    exact no_double_slash h.fields_of_path (hslashes.trans hin)

/-- A reference is read from its own text. -/
theorem parse_text_of_reference (h : Legible u) (hscheme : u.scheme = none) (hhost : u.host = none)
    (hport : u.port = none) (hquery : ∀ x ∈ u.query, ¬ "://".toList <:+: x.toList) :
    parse u.text = .ok u := by
  obtain ⟨path, hpath, hmark, hfragment, hslashes, hfields⟩ := h.path_written hscheme
  have hread : referring {} u.text.toList = u := by
    rw [hpath, referring_written {} hmark h.query, hfields, ← hscheme, ← hhost, ← hport]
  have hfragment' : '#' ∉ u.text.toList := by
    rw [hpath]
    exact fun hc => (List.mem_append.mp hc).elim hfragment h.fragment_of_query
  have hmark' : ¬ "://".toList <:+: u.text.toList := by
    rw [hpath]
    exact no_mark_written hslashes hquery
  rw [parse_of_unmarked hfragment' hmark', hread]
  exact checked_eq_ok_iff.mpr ⟨rfl, h.fits⟩

/-- The authority of a written URI ends where its path or its query begins. -/
theorem cutAuthority_written {a : List Char} (ha : ∀ c ∈ a, inAuthority c = true)
    (path query : List String) :
    (a ++ (behind '/' path ++ queryChars query)).takeWhile inAuthority = a ∧
      (a ++ (behind '/' path ++ queryChars query)).dropWhile inAuthority =
        behind '/' path ++ queryChars query := by
  rw [List.takeWhile_append_of_pos ha, List.dropWhile_append_of_pos ha]
  cases path with
  | nil => cases query <;> simp [behind, queryChars, inAuthority]
  | cons x rest => simp [behind, inAuthority]

theorem inAuthority_written (hhost : ∀ c ∈ host.toList, inAuthority c = true)
    (port : Option UInt16) :
    ∀ c ∈ (hostText host).toList ++ portChars port, inAuthority c = true := by
  intro c hc
  rcases List.mem_append.mp hc with hc | hc
  · rcases mem_hostText hc with rfl | hc | rfl
    · decide
    · exact hhost c hc
    · decide
  · rcases mem_portChars hc with rfl | hc
    · decide
    · rw [inAuthority, Bool.and_eq_true, bne_iff_ne, bne_iff_ne]
      constructor <;> rintro rfl <;> cases hc

theorem fragment_of_authority (hhost : '#' ∉ host.toList) (port : Option UInt16) :
    '#' ∉ (hostText host).toList ++ portChars port := by
  intro hc
  rcases List.mem_append.mp hc with hc | hc
  · rcases mem_hostText hc with hc | hc | hc
    · cases hc
    · exact hhost hc
    · cases hc
  · rcases mem_portChars hc with hc | hc <;> cases hc

theorem colon_of_scheme (scheme : Scheme) : ':' ∉ scheme.text.toList := by
  cases scheme <;> decide

theorem fragment_of_mark (scheme : Scheme) : '#' ∉ scheme.text.toList ++ "://".toList := by
  cases scheme <;> decide

/-- The first scheme mark of a written URI is the one behind its scheme. -/
theorem cutFirst_text (hscheme : u.scheme = some scheme) (hhost : u.host = some host) :
    Text.cutFirst "://".toList u.text.toList = some (scheme.text.toList,
      (hostText host).toList ++ portChars u.port ++ (behind '/' u.path ++ queryChars u.query)) := by
  rw [toList_text_of_absolute hscheme hhost]
  exact Text.cutFirst_of_not_mem (colon_of_scheme scheme)

theorem Legible.fragment_of_text (h : Legible u) (hscheme : u.scheme = some scheme)
    (hhost : u.host = some host) : '#' ∉ u.text.toList := by
  have hname : '#' ∉ host.toList := h.fragment host (by simp [segments, hhost])
  rw [toList_text_of_absolute hscheme hhost]
  intro hc
  rcases List.mem_append.mp hc with hc | hc
  · exact fragment_of_mark scheme hc
  rcases List.mem_append.mp hc with hc | hc
  · exact fragment_of_authority hname u.port hc
  · exact (List.mem_append.mp hc).elim h.fragment_of_path h.fragment_of_query

/-- An absolute URI is read from its own text exactly if its host is printable. -/
theorem parse_text_of_absolute (h : Legible u) (hscheme : u.scheme = some scheme)
    (hhost : u.host = some host) (hne : host ≠ "")
    (hauthority : ∀ c ∈ host.toList, inAuthority c = true) :
    parse u.text = .ok u ↔ Printable host := by
  obtain ⟨hfront, htail⟩ :=
    cutAuthority_written (inAuthority_written hauthority u.port) u.path u.query
  have hread : referring { scheme := some scheme, host := some host, port := u.port }
      (behind '/' u.path ++ queryChars u.query) = u := by
    rw [referring_written _ h.mark_of_path h.query, filledFields_written h.fields_of_path,
      ← hscheme, ← hhost]
  -- Whatever is read behind the scheme mark, only the authority can stand in the way.
  rw [parse_eq_ok_iff (cutFirst_text hscheme hhost), hfront, htail]
  constructor
  · rintro ⟨-, scheme', name, port, -, haccepted, hu⟩
    have hfields := (checked_eq_ok_iff.mp hu).1
    obtain rfl : host = name := Option.some.inj (hhost.symm.trans (congrArg Uri.host hfields))
    obtain rfl : u.port = port := congrArg Uri.port hfields
    exact (accepted_written_iff hne u.port).mp haccepted
  · intro hprintable
    refine ⟨h.fragment_of_text hscheme hhost, scheme, host, u.port, scheme.parse_text,
      (accepted_written_iff hne u.port).mpr hprintable, ?_⟩
    rw [hread]
    exact checked_eq_ok_iff.mpr ⟨rfl, h.fits⟩

/-- What is read from a text is read again from its own text as it was, unless its host is not
printable. -/
theorem own_text_is_read (h : parse s = .ok u) :
    parse u.text = .ok u ↔ ∀ host, u.host = some host → Printable host := by
  have hfragment : '#' ∉ s.toList := by
    intro hc
    cases (parse_of_fragment hc).symm.trans h
  cases hcut : Text.cutFirst "://".toList s.toList with
  | none =>
    have hmark : ¬ "://".toList <:+: s.toList := Text.cutFirst_eq_none_iff.mp hcut
    rw [parse_of_unmarked hfragment hmark] at h
    have hlegible : Legible u := legible_of_referring hfragment (by simp) h
    obtain ⟨rfl, -⟩ := checked_eq_ok_iff.mp h
    -- A mark in a query component would be one in the text that it was read from.
    have hquery : ∀ x ∈ filledFields '&' (queryPart s.toList), ¬ "://".toList <:+: x.toList := by
      intro x hx hin
      have hfield : x.toList <:+: queryPart s.toList := (mem_filledFields hx).2.2
      exact hmark ((hin.trans hfield).trans infix_queryPart)
    exact iff_of_true (parse_text_of_reference hlegible rfl rfl rfl hquery) nofun
  | some parts =>
    obtain ⟨front, rest⟩ := parts
    obtain ⟨-, scheme, name, port, -, haccepted, hu⟩ := (parse_eq_ok_iff hcut).mp h
    have hrest {c : Char} (hc : c ∈ rest) : c ∈ s.toList := by
      rw [Text.eq_append_of_cutFirst hcut]
      exact List.mem_append_right _ hc
    -- Every character of the host is one of the authority that it was read from.
    have hname {c : Char} (hc : c ∈ name.toList) : c ∈ rest.takeWhile inAuthority :=
      haccepted.mem_of_mem hc
    have hlegible : Legible u := by
      refine legible_of_referring (fun hc => ?_) (fun x hx hc => ?_) hu
      · exact hfragment (hrest ((List.dropWhile_sublist _).subset hc))
      · cases hx
        exact hfragment (hrest ((List.takeWhile_sublist _).subset (hname hc)))
    obtain ⟨rfl, -⟩ := checked_eq_ok_iff.mp hu
    have hauthority : ∀ c ∈ name.toList, inAuthority c = true := fun c hc =>
      List.mem_takeWhile_imp (hname hc)
    rw [parse_text_of_absolute hlegible rfl rfl haccepted.1 hauthority]
    constructor
    · rintro hprintable host ⟨⟩
      exact hprintable
    · intro hall
      exact hall name rfl

/-- A URI with an address, a port, two path segments and two query components. -/
theorem sensor_uri_is_read_again :
    parse "coaps://[::1]:05684//sensors/temp?unit=c&&precise" = .ok
        { scheme := some .coaps, host := some "::1", port := some 5684
          path := ["sensors", "temp"], query := ["unit=c", "precise"] } ∧
      parse "coaps://[::1]:5684/sensors/temp?unit=c&precise" = .ok
        { scheme := some .coaps, host := some "::1", port := some 5684
          path := ["sensors", "temp"], query := ["unit=c", "precise"] } := by
  have hparse : parse "coaps://[::1]:05684//sensors/temp?unit=c&&precise" = .ok
      { scheme := some .coaps, host := some "::1", port := some 5684
        path := ["sensors", "temp"], query := ["unit=c", "precise"] } := by decide +kernel
  have hagain := (own_text_is_read hparse).mpr (by decide +kernel)
  exact ⟨hparse, hagain⟩

/-- A host that starts with a bracket is not found in its own text, and one with a closing bracket in
front of a colon is cut short there. -/
theorem brackets_are_not_read_again :
    (¬ ∀ (s : String) (u : Uri), parse s = .ok u → parse u.text = .ok u) ∧
      ∃ u v : Uri, parse "coap://a]b:c:80" = .ok u ∧ parse u.text = .ok v ∧
        (u.host, u.port) = (some "a]b:c", some 80) ∧ (v.host, v.port) = (some "a", none) := by
  constructor
  · intro h
    have hparse : parse "coap://[[abc]" =
        .ok { scheme := some .coap, host := some "[abc" } := by decide +kernel
    have hagain := h _ _ hparse
    revert hagain
    decide +kernel
  · exact ⟨{ scheme := some .coap, host := some "a]b:c", port := some 80 },
      { scheme := some .coap, host := some "a" }, by decide +kernel, by decide +kernel, rfl, rfl⟩

end RoundTrip

end Coap.Uri
