import Coap.Message

/-!
Responses: a message with a response code, its usual options read once. Of options that may occur only once
the first one counts.
-/
namespace Coap

structure Response where
  message : Message
  status : Status
  contentFormat : Option UInt16 := none
  maxAge : Option UInt32 := none
  eTag : Option ByteArray := none
  locationPath : List String := []
  locationQuery : List String := []
  observe : Option UInt32 := none
  size2 : Option UInt32 := none
  deriving DecidableEq

namespace Response

/-- The response after one more option has been read. -/
def note (r : Response) : MessageOption → Response
  | .contentFormat n => { r with contentFormat := r.contentFormat.or (some n) }
  | .maxAge n => { r with maxAge := r.maxAge.or (some n) }
  | .eTag b => { r with eTag := r.eTag.or (some b) }
  | .locationPath s => { r with locationPath := r.locationPath ++ [s] }
  | .locationQuery s => { r with locationQuery := r.locationQuery ++ [s] }
  | .observe n => { r with observe := r.observe.or (some n) }
  | .size2 n => { r with size2 := r.size2.or (some n) }
  | _ => r

/-- Reads the options in their order. -/
def ofMessage (m : Message) : Except MessageError Response :=
  match m.code with
  | .response status => .ok (m.options.foldl note { message := m, status })
  | _ => .error (.invalidCode .notResponse)

/-- The response with another payload; everything read from the options stays. -/
def withPayload (r : Response) (payload : ByteArray) : Response :=
  { r with message := { r.message with payload } }

def isSuccess (r : Response) : Bool := r.status.isSuccess

theorem foldl_note_keeps {α : Type} {field : Response → α}
    (h : ∀ (r : Response) (o : MessageOption), field (r.note o) = field r)
    (options : List MessageOption) (r : Response) : field (options.foldl note r) = field r := by
  induction options generalizing r with
  | nil => rfl
  | cons o rest ih => rw [List.foldl_cons, ih, h]

theorem message_foldl_note (options : List MessageOption) (r : Response) :
    (options.foldl note r).message = r.message :=
  foldl_note_keeps (fun _ o => by cases o <;> rfl) options r

theorem status_foldl_note (options : List MessageOption) (r : Response) :
    (options.foldl note r).status = r.status :=
  foldl_note_keeps (fun _ o => by cases o <;> rfl) options r

/-- It makes no difference whether the payload is replaced before or after the options are read. -/
theorem foldl_note_withPayload (options : List MessageOption) (r : Response) (payload : ByteArray) :
    options.foldl note (r.withPayload payload) = (options.foldl note r).withPayload payload := by
  apply List.foldl_hom fun s : Response => s.withPayload payload
  intro s o
  cases o <;> rfl

end Response

end Coap
