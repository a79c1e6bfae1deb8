import Coap.Proofs.RequestValidity
import Coap.Proofs.UriAuthority

/-! The options that name a URI in a request. Every URI that can be made has options that can be put on
the wire, and together with its scheme they tell the URI. -/
namespace Coap

open MessageOption

namespace Uri

/-- The URIs that callers can have. -/
inductive Obtained : Uri → Prop
  | empty : Obtained {}
  | relative {path query : List String} {u : Uri} (h : relative path query = .ok u) : Obtained u
  | parsed {s : String} {u : Uri} (h : parse s = .ok u) : Obtained u
  /-- A component that is too long leaves the URI as it was. -/
  | extended {u : Uri} (h : Obtained u) (component : String) :
      Obtained ((u.addQuery component).toOption.getD u)

/-- What the ways of making a URI have in common. -/
structure WellFormed (u : Uri) : Prop where
  host : ∀ host ∈ u.host, host ≠ ""
  port : u.port ≠ none → ∃ scheme, u.scheme = some scheme
  fits : ∀ x ∈ u.segments, x.utf8ByteSize ≤ maxSegmentLength

section Obtained

variable {u front : Uri} {text : List Char} {s component : String}

theorem wellFormed_of_referring (hhost : ∀ host ∈ front.host, host ≠ "")
    (hport : front.port ≠ none → ∃ scheme, front.scheme = some scheme)
    (h : checked (referring front text) = .ok u) : u.WellFormed := by
  obtain ⟨rfl, hfits⟩ := checked_eq_ok_iff.mp h
  exact ⟨hhost, hport, hfits⟩

/-- A text is read as a reference, which has neither host nor port, or as a host behind a scheme. -/
theorem wellFormed_of_parse (h : parse s = .ok u) : u.WellFormed := by
  have hfragment : '#' ∉ s.toList := by
    intro hc
    cases (parse_of_fragment hc).symm.trans h
  cases hcut : Text.cutFirst "://".toList s.toList with
  | none =>
    rw [parse_of_unmarked hfragment (Text.cutFirst_eq_none_iff.mp hcut)] at h
    exact wellFormed_of_referring (by simp) (fun hport => absurd rfl hport) h
  | some parts =>
    obtain ⟨-, scheme, name, port, -, haccepted, hu⟩ := (parse_eq_ok_iff hcut).mp h
    refine wellFormed_of_referring ?_ (fun _ => ⟨scheme, rfl⟩) hu
    rintro host ⟨⟩
    exact haccepted.1

theorem WellFormed.addQuery (h : u.WellFormed) (component : String) :
    ((u.addQuery component).toOption.getD u).WellFormed := by
  unfold Uri.addQuery
  by_cases hfits : Uri.fits component = true
  · rw [if_pos hfits]
    refine ⟨h.host, h.port, fun x hx => ?_⟩
    -- The segments are the old ones with the component behind them.
    have hsegments : x ∈ u.segments ++ [component] := by
      unfold segments at hx ⊢
      rw [List.append_assoc]
      exact hx
    rcases List.mem_append.mp hsegments with hx | hx
    · exact h.fits x hx
    · rw [List.mem_singleton.mp hx]
      exact of_decide_eq_true hfits
  · rw [if_neg hfits]
    exact h

theorem Obtained.wellFormed (h : Obtained u) : u.WellFormed := by
  induction h with
  | empty => exact ⟨by simp, fun hport => absurd rfl hport, by simp [segments]⟩
  | relative h =>
    obtain ⟨rfl, hfits⟩ := checked_eq_ok_iff.mp h
    exact ⟨by simp, fun hport => absurd rfl hport, hfits⟩
  | parsed h => exact wellFormed_of_parse h
  | extended _ component ih => exact ih.addQuery component

end Obtained

section Options

variable {u : Uri}

theorem mem_options {o : MessageOption} (h : o ∈ u.options) :
    (∃ host, u.host = some host ∧ o = uriHost host) ∨ (∃ p, o = uriPort p) ∨
      (∃ x ∈ u.path, o = uriPath x) ∨ ∃ x ∈ u.query, o = uriQuery x := by
  simp only [options, List.mem_append, List.mem_map, Option.mem_toList] at h
  rcases h with ((⟨host, hhost, rfl⟩ | ⟨p, -, rfl⟩) | ⟨x, hx, rfl⟩) | ⟨x, hx, rfl⟩
  · exact .inl ⟨host, hhost, rfl⟩
  · exact .inr (.inl ⟨p, rfl⟩)
  · exact .inr (.inr (.inl ⟨x, hx, rfl⟩))
  · exact .inr (.inr (.inr ⟨x, hx, rfl⟩))

/-- The limits of segments are those of the options that name them. -/
theorem WellFormed.inLimits (h : u.WellFormed) : ∀ o ∈ u.options, o.InLimits := by
  intro o ho l hl
  rcases mem_options ho with ⟨host, hhost, rfl⟩ | ⟨p, rfl⟩ | ⟨x, hx, rfl⟩ | ⟨x, hx, rfl⟩
  · cases hl
    have hne : host.utf8ByteSize ≠ 0 :=
      fun hzero => h.host host hhost (String.utf8ByteSize_eq_zero_iff.mp hzero)
    exact ⟨Nat.pos_of_ne_zero hne, h.fits host (by simp [segments, hhost])⟩
  · cases hl
  · cases hl
    exact ⟨Nat.zero_le _, h.fits x (by simp [segments, hx])⟩
  · cases hl
    exact ⟨Nat.zero_le _, h.fits x (by simp [segments, hx])⟩

/-- The options that say the port of a URI: one, unless the scheme implies the port or there is none. -/
inductive PortStated (u : Uri) : List MessageOption → Prop
  | stated {scheme : Scheme} {p : UInt16} (hscheme : u.scheme = some scheme)
      (hport : u.port = some p) (differs : p ≠ scheme.defaultPort) : PortStated u [uriPort p]
  | implied {scheme : Scheme} (hscheme : u.scheme = some scheme)
      (hport : u.port = some scheme.defaultPort) : PortStated u []
  | absent (hport : u.port = none) : PortStated u []

theorem WellFormed.exists_options (h : u.WellFormed) : ∃ port, PortStated u port ∧
    u.options = u.host.toList.map uriHost ++ port ++ u.path.map uriPath ++ u.query.map uriQuery := by
  refine ⟨_, ?_, rfl⟩
  cases hport : u.port with
  | none => exact .absent hport
  | some p =>
    obtain ⟨scheme, hscheme⟩ := h.port (by simp [hport])
    by_cases hp : p = scheme.defaultPort
    · have hnone : ([p].filter fun p => u.scheme.map Scheme.defaultPort != some p) = [] := by
        simp [hscheme, hp]
      rw [Option.toList_some, hnone]
      exact .implied hscheme (hport.trans (congrArg some hp))
    · have hsome : ([p].filter fun p => u.scheme.map Scheme.defaultPort != some p) = [p] := by
        simp [hscheme, Ne.symm hp]
      rw [Option.toList_some, hsome]
      exact .stated hscheme hport hp

/-- The port that is meant: the one that is named, or else the one of the scheme. -/
def effectivePort (u : Uri) : Option UInt16 := u.port.or (u.scheme.map Scheme.defaultPort)

/-- The URI that options name under a scheme, with the port that is meant. -/
def ofOptions (scheme : Option Scheme) (options : List MessageOption) : Uri where
  scheme := scheme
  host := options.findSome? fun | uriHost host => some host | _ => none
  port := (options.findSome? fun | uriPort p => some p | _ => none).or
    (scheme.map Scheme.defaultPort)
  path := options.filterMap fun | uriPath x => some x | _ => none
  query := options.filterMap fun | uriQuery x => some x | _ => none

theorem ofOptions_options (u : Uri) :
    ofOptions u.scheme u.options = { u with port := u.effectivePort } := by
  have hnone {α β : Type} (xs : List α) : xs.findSome? (fun _ => (none : Option β)) = none :=
    List.findSome?_eq_none_iff.mpr fun _ _ => rfl
  have hfirst {α : Type} (x : Option α) : x.toList.findSome? (fun x => some x) = x := by
    cases x <;> rfl
  obtain ⟨scheme, host, port, path, query⟩ := u
  -- Of each part of the list all but the options of one kind are passed over.
  simp only [ofOptions, options, effectivePort, List.findSome?_append, List.filterMap_append,
    List.findSome?_map, List.filterMap_map, Function.comp_def, hnone, hfirst, Option.or_none,
    Option.none_or, List.filterMap_none, List.filterMap_some, List.nil_append, List.append_nil,
    Uri.mk.injEq, and_true, true_and]
  cases port with
  | none => rfl
  | some p =>
    by_cases hp : scheme.map Scheme.defaultPort = some p
    · simp [hp]
    · simp [hp]

theorem assemble_ofUri (method : Method) (u : Uri) : (Request.ofUri method u).assemble =
    { type := .confirmable, code := .request method, options := u.options } := by
  simp [Request.assemble, Request.ofUri, Request.fieldOptions]

/-- Every URI that can be made is turned into a valid request, whose options are one for the host if
there is one, one for the port if there is one that the scheme does not imply, and one for each path
segment and each query component, as they are and in this order. Together with the scheme these
options tell the host, the port that is meant, the path and the query. -/
theorem uris_are_named_by_options (h : Obtained u) (method : Method) :
    ∃ options, (Request.ofUri method u).toMessage =
        .ok { type := .confirmable, code := .request method, options } ∧
      (∃ port, PortStated u port ∧ options =
        u.host.toList.map uriHost ++ port ++ u.path.map uriPath ++ u.query.map uriQuery) ∧
      ofOptions u.scheme options = { u with port := u.effectivePort } := by
  have hu : u.WellFormed := h.wellFormed
  have hvalid : (Request.ofUri method u).assemble.Valid := by
    rw [assemble_ofUri]
    exact ⟨Nat.zero_le _, nofun, fun o ho => encodes_iff_inLimits.mpr (hu.inLimits o ho)⟩
  refine ⟨u.options, ?_, hu.exists_options, ofOptions_options u⟩
  rw [← assemble_ofUri]
  exact Request.toMessage_eq_ok_iff.mpr ⟨rfl, hvalid⟩

/-- A URI with a port of its own, to which a query component has been added. -/
theorem sensor_uri_is_named :
    ∃ u, Obtained u ∧
      parse "coaps://[::1]:4711/sensors?unit=c" >>= (addQuery · "precise") = .ok u ∧
      (Request.ofUri .get u).toMessage = .ok
        { type := .confirmable, code := .request .get
          options := [uriHost "::1", uriPort 4711, uriPath "sensors", uriQuery "unit=c",
            uriQuery "precise"] } := by
  have hparse : parse "coaps://[::1]:4711/sensors?unit=c" = .ok
      { scheme := some .coaps, host := some "::1", port := some 4711
        path := ["sensors"], query := ["unit=c"] } := by decide +kernel
  have hobtained : Obtained
      { scheme := some .coaps, host := some "::1", port := some 4711
        path := ["sensors"], query := ["unit=c", "precise"] } :=
    (Obtained.parsed hparse).extended "precise"
  obtain ⟨options, hmessage, ⟨port, hport, hoptions⟩, -⟩ :=
    uris_are_named_by_options hobtained .get
  refine ⟨_, hobtained, ?_, ?_⟩
  · rw [hparse]
    rfl
  · cases hport with
    | stated hscheme hp =>
      cases hscheme
      cases hp
      rw [hmessage, hoptions]
      rfl
    | implied hscheme hp =>
      cases hscheme
      exact absurd hp (by decide)
    | absent hp => cases hp

end Options

end Uri

end Coap
