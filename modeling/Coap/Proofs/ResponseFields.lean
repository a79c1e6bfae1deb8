import Coap.Client.Step
import Coap.Proofs.MessageParts
import Coap.Proofs.OptionValues

/-! What a response tells of the options of its message. Its fields are filled on one way through the
options, which are told apart by their constructors. Looking an option up by its number finds the same
values, as long as every registered number is held by the constructor of its own kind. -/
namespace Coap

namespace Response

/-! One field -/

section Field

variable {α φ : Type} {k : OptionKind} {hold : α → MessageOption} {field : Response → φ}
  {add : φ → α → φ} {options : List MessageOption}

/-- What an option makes of a field for the options of one kind, which hold their values by one
constructor: each of them adds its value, and all others leave the field as it is. -/
def Notes (k : OptionKind) (hold : α → MessageOption) (add : φ → α → φ) (o : MessageOption)
    (old new : φ) : Prop :=
  (∃ a, o = hold a ∧ o.number = k.number ∧ new = add old a) ∨ o.number ≠ k.number ∧ new = old

/-- A field is filled from the options of one kind. -/
def Fills (k : OptionKind) (hold : α → MessageOption) (field : Response → φ) (add : φ → α → φ) : Prop :=
  ∀ (r : Response) (o : MessageOption), o.Typed → Notes k hold add o (field r) (field (r.note o))

/-- However the options are mixed, a field takes in the values of those with its number, in their
order. -/
theorem Fills.values (h : Fills k hold field add) (htyped : ∀ o ∈ options, o.Typed) (r : Response) :
    ∃ values : List α, (options.filter fun o => o.number == k.number) = values.map hold ∧
      field (options.foldl note r) = values.foldl add (field r) := by
  induction options generalizing r with
  | nil => exact ⟨[], rfl, rfl⟩
  | cons o rest ih =>
    obtain ⟨values, hvalues, hfield⟩ := ih (fun p hp => htyped p (List.mem_cons_of_mem o hp)) (r.note o)
    rcases h r o (htyped o (List.mem_cons_self ..)) with ⟨a, ho, hnumber, hnote⟩ | ⟨hnumber, hnote⟩
    · refine ⟨a :: values, ?_, ?_⟩
      · rw [List.filter_cons_of_pos (by simpa using hnumber), hvalues, ho, List.map_cons]
      · rw [List.foldl_cons, hfield, hnote, List.foldl_cons]
    · refine ⟨values, ?_, ?_⟩
      · rw [List.filter_cons_of_neg (by simpa using hnumber), hvalues]
      · rw [List.foldl_cons, hfield, hnote]

/-- The value that a field has once another one has come: the first one stays. -/
def keepFirst (old : Option α) (a : α) : Option α := old.or (some a)

/-- The values of a field to which another one has come: it is the last one. -/
def keepAll (old : List α) (a : α) : List α := old ++ [a]

theorem foldl_keepFirst (old : Option α) (values : List α) :
    values.foldl keepFirst old = old.or values.head? := by
  induction values generalizing old with
  | nil => cases old <;> rfl
  | cons a rest ih =>
    rw [List.foldl_cons, ih, keepFirst, Option.or_assoc]
    rfl

/-- A field that keeps the first value holds that of the option which is found by its number. -/
theorem Fills.option? {field : Response → Option α} (h : Fills k hold field keepFirst) {m : Message}
    (htyped : ∀ o ∈ m.options, o.Typed) {r : Response} (hr : field r = none) :
    m.option? k.number = (field (m.options.foldl note r)).map hold := by
  obtain ⟨values, hvalues, hfield⟩ := h.values htyped r
  calc m.option? k.number
      = (m.numbered k.number).head? := List.head?_filter.symm
    _ = (values.map hold).head? := congrArg List.head? hvalues
    _ = values.head?.map hold := List.head?_map
    _ = (field (m.options.foldl note r)).map hold := by
      rw [hfield, hr, foldl_keepFirst, Option.none_or]

/-- A field that keeps all values holds those of all options with its number, in their order. -/
theorem Fills.numbered {field : Response → List α} (h : Fills k hold field keepAll)
    {m : Message} (htyped : ∀ o ∈ m.options, o.Typed) {r : Response} (hr : field r = []) :
    m.numbered k.number = (field (m.options.foldl note r)).map hold := by
  obtain ⟨values, hvalues, hfield⟩ := h.values htyped r
  have hall : field (m.options.foldl note r) = values := by
    unfold keepAll at hfield
    rw [hfield, hr, List.foldl_append_eq_append, List.nil_append, ← List.flatMap_def,
      List.flatMap_singleton']
  rw [hall]
  exact hvalues

end Field

/-! The fields of a response -/

/-- What one option makes of all the fields. -/
structure Noted (r : Response) (o : MessageOption) : Prop where
  contentFormat :
    Notes .contentFormat .contentFormat keepFirst o r.contentFormat (r.note o).contentFormat
  maxAge : Notes .maxAge .maxAge keepFirst o r.maxAge (r.note o).maxAge
  eTag : Notes .eTag .eTag keepFirst o r.eTag (r.note o).eTag
  observe : Notes .observe .observe keepFirst o r.observe (r.note o).observe
  size2 : Notes .size2 .size2 keepFirst o r.size2 (r.note o).size2
  locationPath : Notes .locationPath .locationPath keepAll o r.locationPath (r.note o).locationPath
  locationQuery : Notes .locationQuery .locationQuery keepAll o r.locationQuery (r.note o).locationQuery

theorem noted (r : Response) {o : MessageOption} (ho : o.Typed) : Noted r o := by
  cases o with
  | other n value =>
    have hne := OptionKind.number_ne_of_unregistered ho
    constructor <;> exact .inr ⟨hne _, rfl⟩
  -- An option is of one kind, and has the number of no other one.
  | _ =>
    constructor <;> first
    | exact .inl ⟨_, rfl, rfl, rfl⟩
    | exact .inr ⟨by simp [MessageOption.number, OptionKind.number], rfl⟩

/-- A response tells of each option that may occur once what is found by the option's number, and of
those that may be repeated all that have their number, in their order. -/
structure Tells (r : Response) (m : Message) : Prop where
  message : r.message = m
  status : m.code = .response r.status
  contentFormat : m.option? OptionKind.contentFormat.number = r.contentFormat.map .contentFormat
  maxAge : m.option? OptionKind.maxAge.number = r.maxAge.map .maxAge
  eTag : m.option? OptionKind.eTag.number = r.eTag.map .eTag
  observe : m.option? OptionKind.observe.number = r.observe.map .observe
  size2 : m.option? OptionKind.size2.number = r.size2.map .size2
  locationPath : m.numbered OptionKind.locationPath.number = r.locationPath.map .locationPath
  locationQuery : m.numbered OptionKind.locationQuery.number = r.locationQuery.map .locationQuery

theorem tells_of_typed {m : Message} {status : Status} (hcode : m.code = .response status)
    (htyped : ∀ o ∈ m.options, o.Typed) :
    Tells (m.options.foldl note { message := m, status }) m where
  message := message_foldl_note m.options _
  status := by
    rw [status_foldl_note]
    exact hcode
  contentFormat := Fills.option? (fun r _ ho => (noted r ho).contentFormat) htyped rfl
  maxAge := Fills.option? (fun r _ ho => (noted r ho).maxAge) htyped rfl
  eTag := Fills.option? (fun r _ ho => (noted r ho).eTag) htyped rfl
  observe := Fills.option? (fun r _ ho => (noted r ho).observe) htyped rfl
  size2 := Fills.option? (fun r _ ho => (noted r ho).size2) htyped rfl
  locationPath := Fills.numbered (fun r _ ho => (noted r ho).locationPath) htyped rfl
  locationQuery := Fills.numbered (fun r _ ho => (noted r ho).locationQuery) htyped rfl

theorem Tells.observeValue {r : Response} {m : Message} (h : r.Tells m) :
    m.observeValue = r.observe := by
  unfold Message.observeValue
  rw [h.observe]
  cases r.observe <;> rfl

theorem Tells.size2Value {r : Response} {m : Message} (h : r.Tells m) : m.size2Value = r.size2 := by
  unfold Message.size2Value
  rw [h.size2]
  cases r.size2 <;> rfl

/-! The sequence number of an observation -/

/-- The newest sequence number of a subscription is the same after a notification as after the
response to the registration that is read from the same message. -/
theorem Tells.lastSequence {r : Response} {m : Message} (h : r.Tells m) (e : Subscription) :
    (e.accept m).lastSequence = (r.observe.elim e e.seed).lastSequence := by
  unfold Subscription.accept
  rw [h.observeValue]
  cases r.observe with
  | none => rfl
  | some sequence =>
    simp only [Option.elim_some, Subscription.seed]
    split <;> rfl

/-- A message with a response code is read as a response that tells of its options what looking them
up by their numbers finds, if registered numbers are held by their own constructors. So a registration
and a notification give the same sequence number: the one with which an operation ends its registration,
whether the payload has come in blocks or not, is the one that the message has as a notification, and
both move a subscription alike. -/
theorem fields_agree_with_lookups {m : Message} {status : Status} (hcode : m.code = .response status)
    (htyped : ∀ o ∈ m.options, o.Typed) :
    ∃ r, ofMessage m = .ok r ∧ r.Tells m ∧ m.observeValue = r.observe ∧ m.size2Value = r.size2 ∧
      (∀ e : Subscription, (e.accept m).lastSequence = (r.observe.elim e e.seed).lastSequence) ∧
      ∀ (s : Session) (o : Operation) (token : ByteArray) (template : Message) (payload : ByteArray),
        status.isSuccess = true →
          (s.conclude o (.register token template) (.ok (r.withPayload payload))).subscriptions =
            match m.observeValue with
            | some sequence => s.subscriptions.seed token sequence
            | none => (s.subscriptions.deregister token).2 := by
  let r : Response := m.options.foldl note { message := m, status }
  have hread : ofMessage m = .ok r := by
    unfold ofMessage
    rw [hcode]
  have htells : r.Tells m := tells_of_typed hcode htyped
  refine ⟨r, hread, htells, htells.observeValue, htells.size2Value, htells.lastSequence, ?_⟩
  intro s o token template payload hsuccess
  have hstatus : (r.withPayload payload).isSuccess = true := by
    change r.status.isSuccess = true
    rw [status_foldl_note]
    exact hsuccess
  have hobserve : (r.withPayload payload).observe = m.observeValue := htells.observeValue.symm
  unfold Session.conclude
  dsimp only
  rw [hstatus, hobserve]
  cases m.observeValue <;> rfl

/-- A response whose options are mixed: some are there twice, and one is not registered. -/
def mixedResponse : Message :=
  { type := .acknowledgement, code := .response .content
    options := [.locationPath "items", .observe 5, .contentFormat 60, .other 2048 ⟨#[1]⟩,
      .contentFormat 50, .locationPath "17", .observe 4, .eTag ⟨#[1, 2]⟩] }

theorem mixed_options_are_read : (∀ o ∈ mixedResponse.options, o.Typed) ∧
    ∃ r, ofMessage mixedResponse = .ok r ∧ r.Tells mixedResponse ∧
      r.contentFormat = some 60 ∧ r.maxAge = none ∧ r.eTag = some ⟨#[1, 2]⟩ ∧ r.observe = some 5 ∧
      r.locationPath = ["items", "17"] := by
  have htyped : ∀ o ∈ mixedResponse.options, o.Typed := by
    simp only [mixedResponse, List.forall_mem_cons, MessageOption.Typed, true_and]
    exact ⟨rfl, List.forall_mem_nil _⟩
  obtain ⟨r, hr, htells, -⟩ := fields_agree_with_lookups (m := mixedResponse) rfl htyped
  cases hr
  exact ⟨htyped, _, rfl, htells, rfl, rfl, rfl, rfl, rfl⟩

/-- An option that holds a registered number without its kind hides the ones behind it from a look-up,
but not from the response. -/
example :
    let m : Message :=
      { type := .acknowledgement, code := .response .content
        options := [.other OptionKind.observe.number ⟨#[9]⟩, .observe 5] }
    m.observeValue = none ∧ (ofMessage m).toOption.bind Response.observe = some 5 := ⟨rfl, rfl⟩

end Response

end Coap
