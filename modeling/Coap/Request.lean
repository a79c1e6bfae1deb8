import Coap.Message
import Coap.Uri.Options

/-!
Requests: a message under construction together with what its usual options will say.
-/
namespace Coap

structure Request where
  /-- Type, code and payload of the message, and the options that were added to it directly. -/
  message : Message
  uri : Option Uri := none
  accept : Option UInt16 := none
  eTags : Option (List ByteArray) := none
  ifMatch : Option (List Precondition) := none
  contentFormat : Option UInt16 := none
  ifNoneMatch : Bool := false
  hopLimit : Option UInt16 := none
  noResponse : Option UInt8 := none
  observe : Option UInt32 := none
  deriving DecidableEq

namespace Request

/-- Requests are confirmable or non-confirmable messages. -/
def make (type : MessageType) (method : Method) : Except MessageTypeError Request :=
  match type with
  | .confirmable | .nonConfirmable => .ok { message := { type, code := .request method } }
  | other => .error (.invalidForCode other)

def ofUri (method : Method) (uri : Uri) : Request :=
  { message := { type := .confirmable, code := .request method }, uri := some uri }

def method? (r : Request) : Option Method :=
  match r.message.code with
  | .request m => some m
  | _ => none

def setMethod (r : Request) (m : Method) : Request :=
  { r with message := { r.message with code := .request m } }

def setPayload (r : Request) (payload : ByteArray) : Request :=
  { r with message := { r.message with payload } }

/-- The options that the fields stand for, except Observe, in the order in which they are sent. -/
def fieldOptions (r : Request) : List MessageOption :=
  (r.uri.map Uri.options).getD [] ++
    r.accept.toList.map .accept ++
    (r.eTags.getD []).map .eTag ++
    (r.ifMatch.getD []).map .ifMatch ++
    r.contentFormat.toList.map .contentFormat ++
    (if r.ifNoneMatch then [.ifNoneMatch] else []) ++
    r.hopLimit.toList.map .hopLimit ++
    r.noResponse.toList.map .noResponse

/-- The message without any check; the Observe field replaces every Observe option. -/
def assemble (r : Request) : Message :=
  let m := { r.message with options := r.message.options ++ r.fieldOptions }
  match r.observe with
  | some sequence => m.setOption (.observe sequence)
  | none => m

def toMessage (r : Request) : Except MessageError Message :=
  let m := r.assemble
  m.validate.map fun _ => m

end Request

end Coap
