import Coap.Proofs.MessageParts
import Coap.Proofs.OptionValues
import Coap.Proofs.RequestEdits

/-! Options that occur more than once in the message that a request is turned into. The conversion does
not look for them. What decides is which options were added to the message directly, and which fields
stand for another option of the same kind. -/
namespace Coap

namespace OptionKind

theorem number_inj {k k' : OptionKind} : k.number = k'.number ↔ k = k' := by
  constructor
  · intro h
    have hkind : some k = some k' := by rw [← ofNumber?_number k, h, ofNumber?_number]
    exact Option.some.inj hkind
  · rintro rfl
    rfl

/-- Whether the conversion adds a single option of this kind for a field without looking for others. -/
def isAppended : OptionKind → Bool
  | uriHost | uriPort | accept | contentFormat | ifNoneMatch | hopLimit | noResponse => true
  | _ => false

end OptionKind

namespace Message

/-- No option occurs more than once unless it is unregistered or may be repeated. -/
def WithoutRepeats (m : Message) : Prop :=
  ∀ number, 1 < (m.numbered number).length →
    OptionKind.ofNumber? number = none ∨
      ∃ k, OptionKind.ofNumber? number = some k ∧ k.isRepeatable = true

theorem withoutRepeats_iff {m : Message} : m.WithoutRepeats ↔
    ∀ k : OptionKind, k.isRepeatable = false → (m.numbered k.number).length ≤ 1 := by
  constructor
  · intro h k hk
    by_contra hmany
    rcases h k.number (Nat.lt_of_not_le hmany) with hnone | ⟨k', hk', hrepeatable⟩
    · cases (OptionKind.ofNumber?_number k).symm.trans hnone
    · cases (OptionKind.ofNumber?_number k).symm.trans hk'
      cases hk.symm.trans hrepeatable
  · intro h number hmany
    cases hkind : OptionKind.ofNumber? number with
    | none => exact .inl rfl
    | some k =>
      refine .inr ⟨k, rfl, ?_⟩
      rw [← OptionKind.number_of_ofNumber? hkind] at hmany
      by_contra hk
      exact absurd (h k (Bool.eq_false_of_not_eq_true hk)) (Nat.not_le.mpr hmany)

/-- There is no option that a field stands for, and none of the others is there twice. -/
def LeavesRoom (m : Message) : Prop :=
  ∀ k : OptionKind, k.isRepeatable = false →
    (m.numbered k.number).length ≤ if k.isAppended then 0 else 1

end Message

namespace Request

/-- Whether a field stands for an option of this kind that the conversion adds. -/
def states (r : Request) : OptionKind → Bool
  | .uriHost => r.uri.any fun u => u.host.isSome
  | .uriPort => r.uri.any fun u => u.port.any fun p => u.scheme.map Scheme.defaultPort != some p
  | .accept => r.accept.isSome
  | .contentFormat => r.contentFormat.isSome
  | .ifNoneMatch => r.ifNoneMatch
  | .hopLimit => r.hopLimit.isSome
  | .noResponse => r.noResponse.isSome
  | _ => false

/-- The ways in which a kind of option comes to occur more than once. -/
inductive Clashes (r : Request) (k : OptionKind) : Prop
  /-- It was added by hand more than once; the Observe field replaces all such options. -/
  | twice (kept : k = .observe → r.observe = none)
      (many : 1 < (r.message.numbered k.number).length)
  /-- It was added by hand, and a field stands for it as well. -/
  | beside (present : r.message.numbered k.number ≠ []) (stated : r.states k = true)

section Conversion

variable {r : Request} {k : OptionKind}

/-- Options that are made by one constructor are all of its kind. -/
theorem countP_map_kind {α : Type} (own : OptionKind) (f : α → MessageOption)
    (hf : ∀ a, (f a).number = own.number) (l : List α) (k : OptionKind) :
    (l.map f).countP (fun o => o.number == k.number) = if own = k then l.length else 0 := by
  have hsame (a : α) : ((f a).number == k.number) = decide (own = k) := by
    rw [hf, Bool.eq_iff_iff, beq_iff_eq, decide_eq_true_iff]
    exact OptionKind.number_inj
  rw [List.countP_map]
  by_cases h : own = k <;> simp [Function.comp_def, hsame, h]

theorem countP_uri (uri : Option Uri) (hk : k.isRepeatable = false) :
    ((uri.map Uri.options).getD []).countP (fun o => o.number == k.number) =
      (if .uriHost = k then if uri.any fun u => u.host.isSome then 1 else 0 else 0) +
        if .uriPort = k then
          if uri.any fun u => u.port.any fun p => u.scheme.map Scheme.defaultPort != some p then 1
          else 0
        else 0 := by
  cases uri with
  | none => simp
  | some u =>
    have hport : (u.port.toList.filter fun p => u.scheme.map Scheme.defaultPort != some p).length =
        if u.port.any fun p => u.scheme.map Scheme.defaultPort != some p then 1 else 0 := by
      cases u.port with
      | none => rfl
      | some p => cases hp : u.scheme.map Scheme.defaultPort != some p <;> simp [hp]
    have hpath : OptionKind.uriPath ≠ k := by
      rintro rfl
      cases hk
    have hquery : OptionKind.uriQuery ≠ k := by
      rintro rfl
      cases hk
    simp only [Option.map_some, Option.getD_some, Option.any_some, Uri.options, List.countP_append,
      countP_map_kind .uriHost .uriHost (fun _ => rfl),
      countP_map_kind .uriPort .uriPort (fun _ => rfl),
      countP_map_kind .uriPath .uriPath (fun _ => rfl),
      countP_map_kind .uriQuery .uriQuery (fun _ => rfl),
      if_neg hpath, if_neg hquery, hport, Option.length_toList, Nat.add_zero]

theorem countP_fieldOptions (hk : k.isRepeatable = false) :
    r.fieldOptions.countP (fun o => o.number == k.number) = if r.states k then 1 else 0 := by
  have hnone : (if r.ifNoneMatch then [MessageOption.ifNoneMatch] else []).countP
      (fun o => o.number == k.number) =
        if .ifNoneMatch = k then if r.ifNoneMatch then 1 else 0 else 0 := by
    have hsingle := countP_map_kind .ifNoneMatch (fun _ : Unit => .ifNoneMatch) (fun _ => rfl) [()] k
    cases r.ifNoneMatch with
    | false => simp
    | true => exact hsingle
  simp only [fieldOptions, List.countP_append, countP_uri r.uri hk, hnone, Option.length_toList,
    countP_map_kind .accept .accept (fun _ => rfl), countP_map_kind .eTag .eTag (fun _ => rfl),
    countP_map_kind .ifMatch .ifMatch (fun _ => rfl),
    countP_map_kind .contentFormat .contentFormat (fun _ => rfl),
    countP_map_kind .hopLimit .hopLimit (fun _ => rfl),
    countP_map_kind .noResponse .noResponse (fun _ => rfl)]
  -- For each kind all summands but the one of its own field are zero.
  cases k <;> cases hk <;> simp <;> rfl

/-- The Observe field stands for the only Observe option; the other fields add to what is there. -/
theorem length_numbered_assemble (hk : k.isRepeatable = false) :
    (r.assemble.numbered k.number).length =
      if k = .observe ∧ r.observe ≠ none then 1
      else (r.message.numbered k.number).length + if r.states k then 1 else 0 := by
  have hadded (m : Message) (hm : m.options = r.message.options ++ r.fieldOptions) :
      (m.numbered k.number).length =
        (r.message.numbered k.number).length + if r.states k then 1 else 0 := by
    unfold Message.numbered
    rw [hm, List.filter_append, List.length_append, ← countP_fieldOptions hk,
      List.countP_eq_length_filter]
  unfold assemble
  cases hobserve : r.observe with
  | none =>
    rw [if_neg fun h => h.2 rfl]
    exact hadded _ rfl
  | some sequence =>
    by_cases hkind : k = .observe
    · subst hkind
      rw [if_pos ⟨rfl, nofun⟩]
      exact congrArg List.length (Message.numbered_setOption_self _ (.observe sequence))
    · have hne : OptionKind.observe.number ≠ k.number :=
        fun h => hkind (OptionKind.number_inj.mp h).symm
      rw [if_neg fun h => hkind h.1, Message.numbered_setOption_ne _ (.observe sequence) _ hne]
      exact hadded _ rfl

theorem clashes_iff (hk : k.isRepeatable = false) :
    r.Clashes k ↔ 1 < (r.assemble.numbered k.number).length := by
  rw [length_numbered_assemble hk]
  split
  next hreplaced =>
    refine iff_of_false ?_ (Nat.lt_irrefl 1)
    obtain ⟨rfl, hobserve⟩ := hreplaced
    rintro (⟨hkept, -⟩ | ⟨-, hstated⟩)
    · exact hobserve (hkept rfl)
    · cases hstated
  next hkept =>
    constructor
    · rintro (⟨-, hmany⟩ | ⟨hpresent, hstated⟩)
      · omega
      · have hpos := List.length_pos_iff.mpr hpresent
        rw [if_pos hstated]
        omega
    · intro hmany
      cases hstated : r.states k with
      | true =>
        rw [if_pos hstated] at hmany
        exact .beside (List.length_pos_iff.mp (by omega)) hstated
      | false =>
        rw [if_neg (Bool.eq_false_iff.mp hstated)] at hmany
        refine .twice (fun hobserve => ?_) hmany
        exact Decidable.byContradiction fun hne => hkept ⟨hobserve, hne⟩

theorem toMessage_eq_error_iff {e : MessageError} : r.toMessage = .error e ↔ r.assemble.Fault e := by
  rw [← Message.validate_eq_error_iff]
  unfold toMessage
  dsimp only
  cases r.assemble.validate <;> simp [Except.map]

end Conversion

end Request

/-- A change after which a message still leaves room for what the fields stand for: options that may
not be repeated are set, and only those that no field stands for or that a field replaces. -/
def Message.Edit.KeepsRoom : Message.Edit → Prop
  | .addOption o => ∀ k, o.kind = some k → k.isRepeatable = true
  | .setOption o => ∀ k, o.kind = some k → k.isRepeatable = true ∨ k.isAppended = false
  | .replace m => m.LeavesRoom
  | _ => True

theorem MessageOption.kind_of_number {o : MessageOption} {k : OptionKind} (h : o.number = k.number) :
    o.kind = some k := by
  unfold kind
  rw [h, OptionKind.ofNumber?_number]

theorem Message.LeavesRoom.edit {m : Message} (h : m.LeavesRoom) {e : Message.Edit}
    (he : e.KeepsRoom) : (m.edit e).LeavesRoom := by
  intro k hk
  cases e with
  | addOption o =>
    have hne : o.number ≠ k.number := by
      intro hnumber
      cases hk.symm.trans (he k (MessageOption.kind_of_number hnumber))
    exact le_of_eq_of_le (congrArg List.length (numbered_addOption_ne m hne)) (h k hk)
  | setOption o =>
    by_cases hnumber : o.number = k.number
    · have hfree : k.isAppended = false := by
        rcases he k (MessageOption.kind_of_number hnumber) with hrepeatable | hfree
        · cases hk.symm.trans hrepeatable
        · exact hfree
      have hself : ((m.setOption o).numbered k.number).length = 1 := by
        rw [← hnumber, numbered_setOption_self, List.length_singleton]
      rw [hfree]
      exact hself.le
    · exact le_of_eq_of_le (congrArg List.length (numbered_setOption_ne m o _ hnumber)) (h k hk)
  | removeOptions number =>
    have hpart : ((m.removeOptions number).numbered k.number).Sublist (m.numbered k.number) :=
      List.filter_sublist.filter _
    exact hpart.length_le.trans (h k hk)
  | clearOptions => exact Nat.zero_le _
  | replace m' => exact he k hk
  | _ => exact h k hk

namespace Request

def Edit.KeepsRoom : Edit → Prop
  | .message e => e.KeepsRoom
  | _ => True

section Edited

variable {start r : Request} {edits : List Edit} {k : OptionKind}

theorem leavesRoom_edit (h : r.message.LeavesRoom) {e : Edit} (he : e.KeepsRoom) :
    (r.edit e).message.LeavesRoom := by
  cases e with
  | message e => exact h.edit he
  | _ => exact h

theorem leavesRoom_edited (h : r.message.LeavesRoom) (hedits : ∀ e ∈ edits, e.KeepsRoom) :
    (r.edited edits).message.LeavesRoom := by
  induction edits generalizing r with
  | nil => exact h
  | cons e rest ih =>
    obtain ⟨he, hrest⟩ := List.forall_mem_cons.mp hedits
    exact ih (leavesRoom_edit h he) hrest

theorem Created.leavesRoom (h : Created start) : start.message.LeavesRoom := by
  have hnone : start.message.options = [] := by
    cases h with
    | @typed type method r h => cases type <;> cases h <;> rfl
    | ofUri => rfl
  intro k _
  unfold Message.numbered
  rw [hnone]
  exact Nat.zero_le _

theorem isAppended_of_states (h : r.states k = true) : k.isAppended = true := by
  cases k <;> first | rfl | cases h

theorem not_clashes_of_leavesRoom (h : r.message.LeavesRoom) (hk : k.isRepeatable = false) :
    ¬ r.Clashes k := by
  have hroom := h k hk
  rintro (⟨-, hmany⟩ | ⟨hpresent, hstated⟩)
  · split at hroom <;> omega
  · rw [if_pos (isAppended_of_states hstated)] at hroom
    exact hpresent (List.length_eq_zero_iff.mp (Nat.le_zero.mp hroom))

/-- An option that must not be repeated is repeated in the message of a request exactly if it was added
by hand twice, or by hand and by a field. None is if every option was added by hand in a way that
leaves room for the fields. The conversion never fails because of a repetition. -/
theorem repeats_are_clashes (h : Created start) (edits : List Edit) :
    (∀ m, (start.edited edits).toMessage = .ok m → (m.WithoutRepeats ↔
      ∀ k : OptionKind, k.isRepeatable = false → ¬ (start.edited edits).Clashes k)) ∧
    ((∀ e ∈ edits, e.KeepsRoom) →
      ∀ m, (start.edited edits).toMessage = .ok m → m.WithoutRepeats) ∧
    ∀ k, (start.edited edits).toMessage ≠ .error (.repeatedOption k) := by
  have hclashes (m : Message) (hm : (start.edited edits).toMessage = .ok m) : m.WithoutRepeats ↔
      ∀ k : OptionKind, k.isRepeatable = false → ¬ (start.edited edits).Clashes k := by
    rw [Message.withoutRepeats_iff, (toMessage_eq_ok_iff.mp hm).1]
    refine forall₂_congr fun k hk => ?_
    rw [clashes_iff hk, Nat.not_lt]
  refine ⟨hclashes, fun hedits m hm => (hclashes m hm).mpr fun k hk => ?_, fun k herror => ?_⟩
  · exact not_clashes_of_leavesRoom (leavesRoom_edited h.leavesRoom hedits) hk
  · cases toMessage_eq_error_iff.mp herror

/-- A request whose Observe option is set by hand and by a field, and whose query has two parts. -/
theorem observing_request_has_no_repeats :
    ∃ m, ((Request.ofUri .get { query := ["a"] }).edited [.message (.setOption (.observe 1)),
        .message (.addOption (.uriQuery "b")), .observe (some 0)]).toMessage = .ok m ∧
      m.WithoutRepeats := by
  have hm : ((Request.ofUri .get { query := ["a"] }).edited [.message (.setOption (.observe 1)),
      .message (.addOption (.uriQuery "b")), .observe (some 0)]).toMessage = .ok
      { type := .confirmable, code := .request .get
        options := [.uriQuery "b", .uriQuery "a", .observe 0] } := by decide +kernel
  have hobserve : (Edit.message (.setOption (.observe 1))).KeepsRoom := by
    rintro k ⟨⟩
    exact .inr rfl
  have hquery : (Edit.message (.addOption (.uriQuery "b"))).KeepsRoom := by
    rintro k ⟨⟩
    rfl
  obtain ⟨-, hcareful, -⟩ := repeats_are_clashes (.ofUri .get { query := ["a"] })
    [.message (.setOption (.observe 1)), .message (.addOption (.uriQuery "b")), .observe (some 0)]
  refine ⟨_, hm, hcareful ?_ _ hm⟩
  simp only [List.forall_mem_cons, List.not_mem_nil, false_implies, implies_true, and_true]
  exact ⟨hobserve, hquery, trivial⟩

/-- An Accept option that was added by hand stays beside the one of the field. -/
theorem accepted_formats_may_be_two :
    ¬ ∀ (start : Request) (edits : List Edit) (m : Message), Created start →
      (start.edited edits).toMessage = .ok m → m.WithoutRepeats := by
  intro h
  have hrepeats := h _ [.accept (some 60), .message (.addOption (.accept 50))]
    { type := .confirmable, code := .request .get
      options := [.accept 50, .uriPath "a", .accept 60] }
    (.ofUri .get { path := ["a"] }) (by decide +kernel)
  have haccept := Message.withoutRepeats_iff.mp hrepeats .accept rfl
  exact absurd haccept (by decide)

end Edited

end Request

end Coap
