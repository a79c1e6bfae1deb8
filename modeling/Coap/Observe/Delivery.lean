import Coap.Transfer.Complete

/-!
Delivery of one notification: its remaining blocks are fetched, and the response that results is what the
subscriber sees.
-/
namespace Coap

/-- What a subscriber is called with. -/
structure Notification where
  /-- The sequence number of the notification, if it had one. -/
  sequence : Option UInt32
  response : Response
  deriving DecidableEq

/-- How a subscriber's handler went. -/
inductive Reaction
  | handled
  | failed
  | crashed
  deriving DecidableEq, Repr

abbrev Handler := Notification → Reaction

/-- A delivery whose remaining blocks are being fetched. -/
structure Delivery where
  notification : Message
  download : Download

namespace Delivery

/-- The notification for the subscriber; a message that is no response is dropped. -/
def conclude (notification shown : Message) (payload : Option ByteArray) : Option Notification :=
  match Response.ofMessage shown with
  | .error _ => none
  | .ok r =>
    some {
      sequence := notification.observeValue
      response := match payload with
        | some p => r.withPayload p
        | none => r }

/-- Goes on from the download of the remaining blocks. A rejection is shown in place of the notification, and a
download that fails drops it. -/
def ofDownload (notification : Message) (s : Stride Download (Except ClientError Assembly)) :
    Stride Delivery (Option Notification) :=
  { reports := s.reports
    turn :=
      match s.turn with
      | .ask request d => .ask request { notification, download := d }
      | .finish (.error _) => .finish none
      | .finish (.ok (.rejected answer)) => .finish (conclude notification answer none)
      | .finish (.ok (.reassembled payload)) =>
        .finish (conclude notification notification (some payload)) }

def start (blockTransfer : Bool) (template notification : Message) :
    Stride Delivery (Option Notification) :=
  if blockTransfer && notification.block2Value.isSome then
    ofDownload notification (Download.start template notification)
  else { turn := .finish (conclude notification notification none) }

def resume (d : Delivery) (answer : Outcome) : Stride Delivery (Option Notification) :=
  ofDownload d.notification (d.download.resume answer)

end Delivery

end Coap
