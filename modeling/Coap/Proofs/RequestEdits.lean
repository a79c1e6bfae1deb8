import Coap.Edit
import Coap.Proofs.RequestValidity

/-! Requests that are changed before they are sent. The last change of the type and the last change of
the code decide what is sent: no other change touches them, and the conversion does not look at them
again. -/
namespace Coap

/-- The types in which a request may be sent. -/
def MessageType.MayRequest (type : MessageType) : Prop := type = .confirmable ∨ type = .nonConfirmable

instance : DecidablePred MessageType.MayRequest := fun type =>
  inferInstanceAs (Decidable (type = .confirmable ∨ type = .nonConfirmable))

def Code.IsRequest (code : Code) : Prop := ∃ method, code = .request method

namespace Request

/-- The ways of making a request. -/
inductive Created : Request → Prop
  | typed {type : MessageType} {method : Method} {r : Request} (h : make type method = .ok r) :
      Created r
  | ofUri (method : Method) (uri : Uri) : Created (ofUri method uri)

/-- The type that a change says, if it says one. -/
def Edit.type? : Edit → Option MessageType
  | .message (.setType type) => some type
  | .message (.replace m) => some m.type
  | _ => none

def Edit.code? : Edit → Option Code
  | .method m => some (.request m)
  | .message (.setCode code) => some code
  | .message (.replace m) => some m.code
  | _ => none

/-- The type that was said last. -/
def lastType (edits : List Edit) : Option MessageType := edits.reverse.findSome? Edit.type?

def lastCode (edits : List Edit) : Option Code := edits.reverse.findSome? Edit.code?

section Edited

variable {start r : Request} {m : Message}

theorem type_edit (r : Request) (e : Edit) :
    (r.edit e).message.type = e.type?.getD r.message.type := by
  cases e with
  | message e => cases e <;> rfl
  | _ => rfl

theorem code_edit (r : Request) (e : Edit) :
    (r.edit e).message.code = e.code?.getD r.message.code := by
  cases e with
  | message e => cases e <;> rfl
  | _ => rfl

/-- Of something that changes replace or leave alone, the last replacement counts. -/
theorem view_edited {α : Type} (view : Request → α) {field? : Edit → Option α}
    (hstep : ∀ r e, view (r.edit e) = (field? e).getD (view r)) (r : Request) (edits : List Edit) :
    view (r.edited edits) = (edits.reverse.findSome? field?).getD (view r) := by
  induction edits generalizing r with
  | nil => rfl
  | cons e rest ih =>
    have hlast : (e :: rest).reverse.findSome? field? =
        (rest.reverse.findSome? field?).or (field? e) := by
      rw [List.reverse_cons, List.findSome?_append, List.findSome?_singleton]
    calc view (r.edited (e :: rest))
        = view ((r.edit e).edited rest) := rfl
      _ = (rest.reverse.findSome? field?).getD ((field? e).getD (view r)) := by rw [ih, hstep]
      _ = ((e :: rest).reverse.findSome? field?).getD (view r) := by
        rw [hlast]
        cases List.findSome? field? rest.reverse <;> rfl

theorem Created.mayRequest (h : Created start) : start.message.type.MayRequest := by
  cases h with
  | @typed type method r h =>
    cases type <;> cases h
    · exact .inl rfl
    · exact .inr rfl
  | ofUri => exact .inl rfl

theorem Created.isRequest (h : Created start) : start.message.code.IsRequest := by
  cases h with
  | @typed type method r h => cases type <;> cases h <;> exact ⟨method, rfl⟩
  | ofUri method uri => exact ⟨method, rfl⟩

theorem type_edited (r : Request) (edits : List Edit) :
    (r.edited edits).message.type = (lastType edits).getD r.message.type :=
  view_edited (fun r => r.message.type) type_edit r edits

theorem code_edited (r : Request) (edits : List Edit) :
    (r.edited edits).message.code = (lastCode edits).getD r.message.code :=
  view_edited (fun r => r.message.code) code_edit r edits

/-- What a request started with counts only if nothing else was said. -/
theorem getD_iff {α : Type} {P : α → Prop} {last : Option α} {first : α} (h : P first) :
    P (last.getD first) ↔ ∀ a ∈ last, P a := by
  cases last with
  | none => simp [h]
  | some a => simp

/-- No check depends on the type. -/
theorem toMessage_setType (hm : r.toMessage = .ok m) (type : MessageType) :
    (r.edit (.message (.setType type))).toMessage = .ok { m with type } := by
  obtain ⟨rfl, hvalid⟩ := toMessage_eq_ok_iff.mp hm
  have hassemble : (r.edit (.message (.setType type))).assemble = { r.assemble with type } := by
    unfold assemble edit Message.edit
    cases r.observe <;> rfl
  rw [toMessage_eq_ok_iff, hassemble]
  exact ⟨rfl, hvalid.token, hvalid.data, hvalid.options⟩

/-- Only the code of an empty message is looked at: such a message must not have a payload. -/
theorem toMessage_setCode (hm : r.toMessage = .ok m) {code : Code}
    (hdata : code = .empty → m.payload.size = 0) :
    (r.edit (.message (.setCode code))).toMessage = .ok { m with code } := by
  obtain ⟨rfl, hvalid⟩ := toMessage_eq_ok_iff.mp hm
  have hassemble : (r.edit (.message (.setCode code))).assemble = { r.assemble with code } := by
    unfold assemble edit Message.edit
    cases r.observe <;> rfl
  rw [toMessage_eq_ok_iff, hassemble]
  exact ⟨rfl, hvalid.token, hdata, hvalid.options⟩

/-- A request that has been changed in any way is turned into a message in a type for requests exactly
if the type that was set last is one, and into a message with a request code exactly if the code
that was set last is one; where none was set, it is. The conversion checks neither: with any other
type it succeeds as well, and so it does with any other code, as long as no payload is left in an
empty message. -/
theorem last_type_and_code_are_sent (h : Created start) (edits : List Edit)
    (hm : (start.edited edits).toMessage = .ok m) :
    (m.type.MayRequest ↔ ∀ type ∈ lastType edits, type.MayRequest) ∧
    (m.code.IsRequest ↔ ∀ code ∈ lastCode edits, code.IsRequest) ∧
    (∀ type, (start.edited (edits ++ [.message (.setType type)])).toMessage = .ok { m with type }) ∧
    ∀ code, (code = .empty → m.payload.size = 0) →
      (start.edited (edits ++ [.message (.setCode code)])).toMessage = .ok { m with code } := by
  have hconcat (e : Edit) : start.edited (edits ++ [e]) = (start.edited edits).edit e := by
    unfold edited
    rw [List.foldl_concat]
  refine ⟨?_, ?_, fun type => ?_, fun code hdata => ?_⟩
  · rw [type_of_toMessage hm, type_edited]
    exact getD_iff h.mayRequest
  · rw [code_of_toMessage hm, code_edited]
    exact getD_iff h.isRequest
  · rw [hconcat]
    exact toMessage_setType hm type
  · rw [hconcat]
    exact toMessage_setCode hm hdata

/-- A request that was an acknowledgement for a while and has got another method. -/
theorem put_request_is_sent :
    ∃ m, ((Request.ofUri .get { path := ["a"] }).edited
        [.message (.setType .acknowledgement), .message (.addOption (.uriQuery "b")), .method .put,
          .message (.setType .nonConfirmable)]).toMessage = .ok m ∧
      m.type.MayRequest ∧ m.code.IsRequest := by
  have hm : ((Request.ofUri .get { path := ["a"] }).edited
      [.message (.setType .acknowledgement), .message (.addOption (.uriQuery "b")), .method .put,
        .message (.setType .nonConfirmable)]).toMessage = .ok
      { type := .nonConfirmable, code := .request .put
        options := [.uriQuery "b", .uriPath "a"] } := by decide +kernel
  obtain ⟨htype, hcode, -⟩ := last_type_and_code_are_sent (.ofUri .get { path := ["a"] }) _ hm
  refine ⟨_, hm, htype.mpr ?_, hcode.mpr ?_⟩
  · rintro type ⟨⟩
    exact .inr rfl
  · rintro code ⟨⟩
    exact ⟨.put, rfl⟩

/-- A request can be turned into an acknowledgement, and into a message with a response code. -/
theorem requests_may_become_answers :
    (¬ ∀ (start : Request) (edits : List Edit) (m : Message), Created start →
      (start.edited edits).toMessage = .ok m → m.type.MayRequest) ∧
    ¬ ∀ (start : Request) (edits : List Edit) (m : Message), Created start →
      (start.edited edits).toMessage = .ok m → m.code.IsRequest := by
  have hcreated : Created (Request.ofUri .get { path := ["a"] }) := .ofUri .get _
  constructor
  · intro h
    have htype := h _ [.message (.setType .acknowledgement)]
      { type := .acknowledgement, code := .request .get, options := [.uriPath "a"] } hcreated
      (by decide +kernel)
    exact absurd htype (by decide)
  · intro h
    have hcode := h _ [.message (.setCode (.response .content))]
      { type := .confirmable, code := .response .content, options := [.uriPath "a"] } hcreated
      (by decide +kernel)
    obtain ⟨method, hmethod⟩ := hcode
    cases hmethod

end Edited

end Request

end Coap
