import Coap.Code
import Coap.Option.Basic

/-!
Messages in structured form, and the check that one can be put on the wire.
-/
namespace Coap

inductive MessageError
  | invalidOption (kind : Option OptionKind) (cause : OptionError)
  | repeatedOption (kind : OptionKind)
  | invalidUri (cause : UriError)
  | invalidCode (cause : CodeError)
  | dataInEmptyMessage
  | tokenTooLong (length : Nat)
  deriving DecidableEq, Repr

/-- The kind of an option in words, where there is one. -/
def OptionKind.optionalName : Option OptionKind → String
  | some k => s!"Some({k.name})"
  | none => "None"

def MessageError.message : MessageError → String
  | invalidOption kind _ =>
    s!"CoAP message conversion error: invalid option value for {OptionKind.optionalName kind}"
  | repeatedOption kind =>
    s!"CoAP message conversion error: non-repeatable option of type {kind.name} repeated"
  | invalidUri _ => "CoAP message conversion error: provided uri is not valid for a request"
  | invalidCode _ => "CoAP message conversion error: invalid message code"
  | dataInEmptyMessage => "CoAP message conversion error: empty message contains data"
  | tokenTooLong n => s!"CoAP message conversion error: token of {n} bytes exceeds 8 bytes"

structure Message where
  type : MessageType
  code : Code
  id : UInt16 := 0
  token : ByteArray := ByteArray.empty
  /-- Options in the order in which they were added. -/
  options : List MessageOption := []
  payload : ByteArray := ByteArray.empty
  deriving DecidableEq

namespace Message

/-- The largest number of bytes in a token. -/
def maxTokenLength : Nat := 8

def addOption (m : Message) (o : MessageOption) : Message :=
  { m with options := m.options ++ [o] }

def removeOptions (m : Message) (number : UInt16) : Message :=
  { m with options := m.options.filter fun o => o.number != number }

/-- Replaces all options of the same number; the new one comes last. -/
def setOption (m : Message) (o : MessageOption) : Message :=
  (m.removeOptions o.number).addOption o

/-- The first option with the given number. -/
def option? (m : Message) (number : UInt16) : Option MessageOption :=
  m.options.find? fun o => o.number == number

def observeValue (m : Message) : Option UInt32 :=
  match m.option? OptionKind.observe.number with
  | some (.observe n) => some n
  | _ => none

def block1Value (m : Message) : Option UInt32 :=
  match m.option? OptionKind.block1.number with
  | some (.block1 n) => some n
  | _ => none

def block2Value (m : Message) : Option UInt32 :=
  match m.option? OptionKind.block2.number with
  | some (.block2 n) => some n
  | _ => none

def size2Value (m : Message) : Option UInt32 :=
  match m.option? OptionKind.size2.number with
  | some (.size2 n) => some n
  | _ => none

/-- The first option whose value cannot be encoded decides the error. -/
def checkOptions : List MessageOption → Except MessageError Unit
  | [] => .ok ()
  | o :: rest =>
    match o.encode with
    | .ok _ => checkOptions rest
    | .error cause => .error (.invalidOption o.kind cause)

/-- Whether the message can be put on the wire: first its token, then its payload, then its options. -/
def validate (m : Message) : Except MessageError Unit :=
  if maxTokenLength < m.token.size then .error (.tokenTooLong m.token.size)
  else if m.code = .empty ∧ m.payload.size ≠ 0 then .error .dataInEmptyMessage
  else checkOptions m.options

end Message

end Coap
