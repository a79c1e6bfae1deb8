import Coap.Proofs.UriPort
import Coap.Proofs.UriReference

/-! Authorities as text: which host and which port is read from the text between a scheme mark and
the path or the query. Everything in it is part of the host or of the port, except for what stands
behind a bracketed host without being a port. -/
namespace Coap.Uri

/-- What stands behind a host: nothing, or a colon and a port. -/
inductive PortSuffix : Option UInt16 → List Char → Prop
  | absent : PortSuffix none []
  | present {p : UInt16} {text : List Char} (h : PortText p text) : PortSuffix (some p) (':' :: text)

/-- The texts that hold a host and a port and nothing else. A plain host starts with no bracket, and
there is a colon in it only if a port follows; a bracketed host has no closing bracket in it. -/
inductive Spelled (host : List Char) (port : Option UInt16) : List Char → Prop
  | plain {suffix : List Char} (opening : host.head? ≠ some '[') (colon : ':' ∈ host → port ≠ none)
      (h : PortSuffix port suffix) : Spelled host port (host ++ suffix)
  | bracketed {suffix : List Char} (closing : ']' ∉ host) (h : PortSuffix port suffix) :
      Spelled host port ('[' :: (host ++ ']' :: suffix))

/-- A bracketed host with something behind it that does not start like a port. -/
inductive Cluttered (host : List Char) : List Char → Prop
  | clutter {rest : List Char} (closing : ']' ∉ host) (nonempty : rest ≠ [])
      (colon : rest.head? ≠ some ':') : Cluttered host ('[' :: (host ++ ']' :: rest))

section Authority

variable {a host text rest : List Char} {name : String} {port : Option UInt16}

/-- The text of the port that follows a closing bracket. -/
def portBehind : List Char → Option (List Char)
  | ':' :: text => some text
  | _ => none

theorem portBehind_of_head (h : rest.head? ≠ some ':') : portBehind rest = none := by
  unfold portBehind
  split
  · exact absurd rfl h
  · rfl

theorem hostAndPort_unclosed (h : ']' ∉ rest) :
    hostAndPort ('[' :: rest) = .error .missingHost := by
  rw [hostAndPort, Text.cutFirst_char_eq_none_iff.mpr h]

theorem hostAndPort_bracketed (h : ']' ∉ host) :
    hostAndPort ('[' :: (host ++ ']' :: rest)) = .ok (host, portBehind rest) := by
  rw [hostAndPort, Text.cutFirst_char_iff.mpr ⟨rfl, h⟩]
  unfold portBehind
  split <;> simp_all

theorem hostAndPort_plain (h : a.head? ≠ some '[') : hostAndPort a =
    match Text.cutLast ':' a with
    | some (host, text) => .ok (host, some text)
    | none => .ok (a, none) := by
  unfold hostAndPort
  split
  · exact absurd rfl h
  · rfl

theorem hostAndPort_portless (hopening : host.head? ≠ some '[') (hcolon : ':' ∉ host) :
    hostAndPort host = .ok (host, none) := by
  rw [hostAndPort_plain hopening, Text.cutLast_eq_none_iff.mpr hcolon]

theorem hostAndPort_ported (hopening : (host ++ ':' :: text).head? ≠ some '[')
    (hcolon : ':' ∉ text) : hostAndPort (host ++ ':' :: text) = .ok (host, some text) := by
  rw [hostAndPort_plain hopening, Text.cutLast_eq_some_iff.mpr ⟨rfl, hcolon⟩]

theorem portSuffix_nil_iff : PortSuffix port [] ↔ port = none := by
  constructor
  · intro h
    cases h
    rfl
  · rintro rfl
    exact .absent

theorem portSuffix_cons_iff :
    PortSuffix port (':' :: text) ↔ ∃ p, port? text = some p ∧ port = some p := by
  constructor
  · intro h
    cases h with
    | present hp => exact ⟨_, port?_eq_some_iff.mpr hp, rfl⟩
  · rintro ⟨p, hp, rfl⟩
    exact .present (port?_eq_some_iff.mp hp)

/-- A port that has been split off is read to its end, and the host must not be empty. -/
theorem parseAuthority_iff {portText : Option (List Char)}
    (h : hostAndPort a = .ok (host, portText)) : parseAuthority a = .ok (name, port) ↔
      host = name.toList ∧ host ≠ [] ∧
        PortSuffix port (portText.elim [] fun text => ':' :: text) := by
  have hname : String.ofList host = name ↔ host = name.toList := by
    rw [← String.toList_inj, String.toList_ofList]
  -- The host is looked at when the port has been read.
  have hfinish (found : Option UInt16) :
      (if host.isEmpty then (.error .missingHost : Except UriError (String × Option UInt16))
        else .ok (String.ofList host, found)) = .ok (name, port) ↔
      host = name.toList ∧ host ≠ [] ∧ port = found := by
    cases host with
    | nil => simp
    | cons c r => simp [← hname, eq_comm]
  unfold parseAuthority
  rw [h]
  cases portText with
  | none =>
    dsimp only [bind, Except.bind, pure, Except.pure, throw, throwThe, MonadExceptOf.throw,
      Option.elim]
    rw [hfinish, portSuffix_nil_iff]
  | some text =>
    dsimp only [bind, Except.bind, pure, Except.pure, throw, throwThe, MonadExceptOf.throw,
      Option.elim]
    rw [portSuffix_cons_iff]
    cases hport : port? text with
    | none =>
      refine iff_of_false nofun ?_
      rintro ⟨-, -, p, hp, -⟩
      cases hp
    | some p =>
      rw [hfinish]
      simp

/-- What an authority may look like: a host and a port, or a bracketed host with text behind it that
is passed over. -/
def Accepted (name : String) (port : Option UInt16) (a : List Char) : Prop :=
  name ≠ "" ∧ (Spelled name.toList port a ∨ port = none ∧ Cluttered name.toList a)

theorem PortSuffix.port_of_behind (h : PortSuffix port rest) :
    (portBehind rest).elim [] (fun text => ':' :: text) = rest := by
  cases h <;> rfl

theorem accepted_of_bracketed (hclosing : ']' ∉ host)
    (h : parseAuthority ('[' :: (host ++ ']' :: rest)) = .ok (name, port)) :
    Accepted name port ('[' :: (host ++ ']' :: rest)) := by
  obtain ⟨rfl, hne, hport⟩ := (parseAuthority_iff (hostAndPort_bracketed hclosing)).mp h
  refine ⟨fun he => hne (by rw [he]; rfl), ?_⟩
  -- Behind the bracket there is a port, nothing at all, or text that is passed over.
  by_cases hcolon : rest.head? = some ':'
  · obtain ⟨text, rfl⟩ := List.head?_eq_some_iff.mp hcolon
    exact .inl (.bracketed hclosing hport)
  · rw [portBehind_of_head hcolon] at hport
    have hnone : port = none := portSuffix_nil_iff.mp hport
    by_cases hrest : rest = []
    · rw [hnone, hrest]
      exact .inl (.bracketed hclosing .absent)
    · exact .inr ⟨hnone, .clutter hclosing hrest hcolon⟩

theorem accepted_of_plain (hopening : a.head? ≠ some '[')
    (h : parseAuthority a = .ok (name, port)) : Accepted name port a := by
  -- The last colon cuts off a port; without a colon the whole text is the host.
  cases hcut : Text.cutLast ':' a with
  | none =>
    have hcolon : ':' ∉ a := Text.cutLast_eq_none_iff.mp hcut
    obtain ⟨rfl, hne, hport⟩ := (parseAuthority_iff (hostAndPort_portless hopening hcolon)).mp h
    refine ⟨fun he => hne (by rw [he]; rfl), .inl ?_⟩
    have hplain := Spelled.plain hopening (fun hc => absurd hc hcolon) hport
    rwa [Option.elim_none, List.append_nil] at hplain
  | some parts =>
    obtain ⟨host, text⟩ := parts
    obtain ⟨rfl, hcolon⟩ := Text.cutLast_eq_some_iff.mp hcut
    obtain ⟨rfl, hne, hport⟩ := (parseAuthority_iff (hostAndPort_ported hopening hcolon)).mp h
    refine ⟨fun he => hne (by rw [he]; rfl), .inl (.plain ?_ ?_ hport)⟩
    · rwa [List.head?_append_of_ne_nil _ hne] at hopening
    · rintro - rfl
      cases hport

theorem parseAuthority_of_spelled (hne : name ≠ "") (h : Spelled name.toList port a) :
    parseAuthority a = .ok (name, port) := by
  have hlist : name.toList ≠ [] := fun he => hne (String.toList_eq_nil_iff.mp he)
  cases h with
  | @plain suffix hopening hcolon hport =>
    cases hport with
    | absent =>
      have hportless : ':' ∉ name.toList := fun hc => hcolon hc rfl
      rw [List.append_nil]
      exact (parseAuthority_iff (hostAndPort_portless hopening hportless)).mpr ⟨rfl, hlist, .absent⟩
    | @present p text hp =>
      have hopening' : (name.toList ++ ':' :: text).head? ≠ some '[' := by
        rwa [List.head?_append_of_ne_nil _ hlist]
      -- A port has no colon in it, so the one in front of it is the last.
      have hplain : ':' ∉ text := by
        intro hc
        rcases hp.isDigit_or_plus hc with hc | hc <;> cases hc
      exact (parseAuthority_iff (hostAndPort_ported hopening' hplain)).mpr
        ⟨rfl, hlist, .present hp⟩
  | bracketed hclosing hport =>
    refine (parseAuthority_iff (hostAndPort_bracketed hclosing)).mpr ⟨rfl, hlist, ?_⟩
    rwa [hport.port_of_behind]

theorem parseAuthority_eq_ok_iff :
    parseAuthority a = .ok (name, port) ↔ Accepted name port a := by
  constructor
  · intro h
    by_cases hopening : a.head? = some '['
    · obtain ⟨r, rfl⟩ := List.head?_eq_some_iff.mp hopening
      by_cases hclosing : ']' ∈ r
      · obtain ⟨host, rest, rfl, hhost⟩ := List.eq_append_cons_of_mem hclosing
        exact accepted_of_bracketed hhost h
      · unfold parseAuthority at h
        rw [hostAndPort_unclosed hclosing] at h
        cases h
    · exact accepted_of_plain hopening h
  · rintro ⟨hne, h | ⟨rfl, h⟩⟩
    · exact parseAuthority_of_spelled hne h
    · cases h with
      | clutter hclosing _ hcolon =>
        have hlist : name.toList ≠ [] := fun he => hne (String.toList_eq_nil_iff.mp he)
        refine (parseAuthority_iff (hostAndPort_bracketed hclosing)).mpr ⟨rfl, hlist, ?_⟩
        rw [portBehind_of_head hcolon]
        exact .absent

end Authority

section Parse

variable {s : String} {front rest : List Char}

/-- With a scheme mark the text is read piece by piece: scheme, authority, path and query. -/
theorem parse_eq_ok_iff (hcut : Text.cutFirst "://".toList s.toList = some (front, rest)) {u : Uri} :
    parse s = .ok u ↔ '#' ∉ s.toList ∧ ∃ scheme name port, Scheme.parse front = .ok scheme ∧
      Accepted name port (rest.takeWhile inAuthority) ∧
      checked (referring { scheme := some scheme, host := some name, port }
        (rest.dropWhile inAuthority)) = .ok u := by
  by_cases hfragment : '#' ∈ s.toList
  · rw [parse_of_fragment hfragment]
    exact iff_of_false nofun fun h => h.1 hfragment
  cases hscheme : Scheme.parse front with
  | error cause =>
    rw [parse_of_no_scheme hfragment hcut hscheme]
    refine iff_of_false nofun ?_
    rintro ⟨-, scheme, -, -, h, -⟩
    cases h
  | ok scheme =>
    have hparse : parse s = parseAuthority (rest.takeWhile inAuthority) >>= fun found =>
        checked (referring { scheme := some scheme, host := some found.1, port := found.2 }
          (rest.dropWhile inAuthority)) := by
      unfold parse
      dsimp only
      rw [if_neg (mt List.contains_iff_mem.mp hfragment), hcut]
      dsimp only
      rw [hscheme]
      simp only [withReference_eq]
      rfl
    rw [hparse]
    cases hauthority : parseAuthority (rest.takeWhile inAuthority) with
    | error cause =>
      refine iff_of_false nofun ?_
      rintro ⟨-, -, name, port, -, h, -⟩
      cases hauthority.symm.trans (parseAuthority_eq_ok_iff.mpr h)
    | ok found =>
      have haccepted : Accepted found.1 found.2 (rest.takeWhile inAuthority) :=
        parseAuthority_eq_ok_iff.mp hauthority
      constructor
      · intro h
        exact ⟨hfragment, scheme, found.1, found.2, rfl, haccepted, h⟩
      · rintro ⟨-, scheme', name, port, hs, h, hu⟩
        cases hs
        cases hauthority.symm.trans (parseAuthority_eq_ok_iff.mpr h)
        exact hu

/-- A text with a scheme mark is a URI exactly if it has no fragment, the text in front of the mark is
a scheme, the text from there to the next slash or question mark is an authority, and no part is
overlong. The authority is the host, plain or in brackets, with a colon and a port behind it if the
URI has one, and nothing else; only behind a bracketed host more text may stand, as long as it does
not start with a colon. -/
theorem authorities_are_read (hcut : Text.cutFirst "://".toList s.toList = some (front, rest))
    (u : Uri) : parse s = .ok u ↔ '#' ∉ s.toList ∧
      (∃ scheme, Scheme.parse front = .ok scheme ∧ u.scheme = some scheme) ∧
      (∃ host, u.host = some host ∧ host ≠ "" ∧
        (Spelled host.toList u.port (rest.takeWhile inAuthority) ∨
          u.port = none ∧ Cluttered host.toList (rest.takeWhile inAuthority))) ∧
      u.path = filledFields '/' (pathPart (rest.dropWhile inAuthority)) ∧
      u.query = filledFields '&' (queryPart (rest.dropWhile inAuthority)) ∧
      ∀ x ∈ u.segments, x.utf8ByteSize ≤ 255 := by
  rw [parse_eq_ok_iff hcut]
  refine and_congr_right fun _ => ?_
  constructor
  · rintro ⟨scheme, name, port, hscheme, hname, hu⟩
    obtain ⟨rfl, hfits⟩ := checked_eq_ok_iff.mp hu
    exact ⟨⟨scheme, hscheme, rfl⟩, ⟨name, rfl, hname⟩, rfl, rfl, hfits⟩
  · rintro ⟨⟨scheme, hscheme, hu⟩, ⟨name, hhost, hname⟩, hpath, hquery, hfits⟩
    refine ⟨scheme, name, u.port, hscheme, hname, ?_⟩
    have hfields : referring { scheme := some scheme, host := some name, port := u.port }
        (rest.dropWhile inAuthority) = u := by
      unfold referring
      rw [← hpath, ← hquery, ← hu, ← hhost]
    rw [hfields]
    exact checked_eq_ok_iff.mpr ⟨rfl, hfits⟩

/-- An address in brackets with a padded port. -/
theorem address_in_brackets_is_read :
    Text.cutFirst "://".toList "coaps://[::1]:05684/a?b".toList =
        some ("coaps".toList, "[::1]:05684/a?b".toList) ∧
      parse "coaps://[::1]:05684/a?b" = .ok
        { scheme := some .coaps, host := some "::1", port := some 5684
          path := ["a"], query := ["b"] } ∧
      Spelled "::1".toList (some 5684) "[::1]:05684".toList := by
  have hcut : Text.cutFirst "://".toList "coaps://[::1]:05684/a?b".toList =
      some ("coaps".toList, "[::1]:05684/a?b".toList) := by decide +kernel
  have hparse : parse "coaps://[::1]:05684/a?b" = .ok
      { scheme := some .coaps, host := some "::1", port := some 5684
        path := ["a"], query := ["b"] } := by decide +kernel
  obtain ⟨-, -, ⟨host, hhost, -, hform⟩, -⟩ := (authorities_are_read hcut _).mp hparse
  cases hhost
  refine ⟨hcut, hparse, ?_⟩
  rcases hform with hspelled | ⟨hnone, -⟩
  · exact hspelled
  · cases hnone

/-- The text behind a closing bracket is neither part of the host nor a port, but it is accepted. -/
theorem text_behind_bracket_is_passed_over :
    ¬ ∀ (s : String) (front rest : List Char) (u : Uri) (host : String),
      Text.cutFirst "://".toList s.toList = some (front, rest) → parse s = .ok u →
      u.host = some host → ∃ suffix, PortSuffix u.port suffix ∧
        (rest.takeWhile inAuthority = host.toList ++ suffix ∨
          rest.takeWhile inAuthority = '[' :: (host.toList ++ ']' :: suffix)) := by
  intro h
  have hcut : Text.cutFirst "://".toList "coap://[::1]80/a".toList =
      some ("coap".toList, "[::1]80/a".toList) := by decide +kernel
  have hparse : parse "coap://[::1]80/a" =
      .ok { scheme := some .coap, host := some "::1", path := ["a"] } := by decide +kernel
  obtain ⟨suffix, hsuffix, hplain | hbracketed⟩ := h _ _ _ _ "::1" hcut hparse rfl
  · cases hsuffix
    exact absurd hplain (by decide +kernel)
  · cases hsuffix
    exact absurd hbracketed (by decide +kernel)

end Parse

end Coap.Uri
