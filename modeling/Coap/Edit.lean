import Coap.Request

/-!
What callers change in messages and requests before they are sent. No change is checked when it is made.
-/
namespace Coap

/-- A change of a message, as requests and responses allow it for the message in them as well. -/
inductive Message.Edit
  | addOption (option : MessageOption)
  | setOption (option : MessageOption)
  | removeOptions (number : UInt16)
  | clearOptions
  | setType (type : MessageType)
  | setCode (code : Code)
  | setId (id : UInt16)
  | setToken (token : ByteArray)
  | setPayload (payload : ByteArray)
  /-- Another message takes its place. -/
  | replace (message : Message)
  deriving DecidableEq

def Message.edit (m : Message) : Message.Edit → Message
  | .addOption o => m.addOption o
  | .setOption o => m.setOption o
  | .removeOptions number => m.removeOptions number
  | .clearOptions => { m with options := [] }
  | .setType type => { m with type }
  | .setCode code => { m with code }
  | .setId id => { m with id }
  | .setToken token => { m with token }
  | .setPayload payload => { m with payload }
  | .replace message => message

/-- A change of a request: of one of its fields, or of the message in it. -/
inductive Request.Edit
  | method (method : Method)
  | uri (uri : Option Uri)
  | accept (number : Option UInt16)
  | eTags (eTags : Option (List ByteArray))
  | ifMatch (conditions : Option (List Precondition))
  | contentFormat (number : Option UInt16)
  | ifNoneMatch (wanted : Bool)
  | hopLimit (limit : Option UInt16)
  | noResponse (classes : Option UInt8)
  | observe (sequence : Option UInt32)
  | payload (payload : ByteArray)
  | message (edit : Message.Edit)
  deriving DecidableEq

namespace Request

def edit (r : Request) : Edit → Request
  | .method m => r.setMethod m
  | .uri uri => { r with uri }
  | .accept accept => { r with accept }
  | .eTags eTags => { r with eTags }
  | .ifMatch ifMatch => { r with ifMatch }
  | .contentFormat contentFormat => { r with contentFormat }
  | .ifNoneMatch ifNoneMatch => { r with ifNoneMatch }
  | .hopLimit hopLimit => { r with hopLimit }
  | .noResponse noResponse => { r with noResponse }
  | .observe observe => { r with observe }
  | .payload payload => r.setPayload payload
  | .message e => { r with message := r.message.edit e }

/-- The request after a sequence of changes. -/
def edited (r : Request) (edits : List Edit) : Request := edits.foldl edit r

end Request

end Coap
